import TorrentFs.Cache.Accounting

/-!
# The access order and the tags of the cache

`lru` is an index of the metadata map: one entry `(last_accessed, piece_key)` for each
registered piece. Every call keeps it so, and the eviction loop ends because of it. Beside the map
stand two sets of tags: the incomplete pieces are registered, and none of them is verified.
-/

namespace TorrentFs.Cache

open Text Word FinMap Finset

/-- `lru` holds exactly the pairs of last access and key that `m` records. -/
def Indexes (lru : Finset (ℕ ×ₗ Str)) (m : FinMap Str PieceMetadata) : Prop :=
  ∀ t key, toLex (t, key) ∈ lru ↔ ∃ info, m.get key = some info ∧ info.lastAccessed = t

namespace Indexes

variable {lru : Finset (ℕ ×ₗ Str)} {m : FinMap Str PieceMetadata}

lemma erase (h : Indexes lru m) (key : Str) :
    Indexes (CacheManager.unindex lru m key) (m.erase key) := by
  intro t k
  unfold CacheManager.unindex
  cases hget : m.get key with
  | none =>
    -- no entry of the index carries a key without a record
    rw [erase_of_get_none hget]
    exact h t k
  | some info =>
    rw [mem_erase, h t k]
    by_cases hk : k = key
    · subst hk
      simp only [hget, Option.some.injEq, exists_eq_left', get_erase, if_true,
        reduceCtorEq, false_and, exists_false, iff_false, not_and]
      rintro hne rfl
      exact hne rfl
    · simp [hk]

lemma insert (h : Indexes lru m) (key : Str) (info : PieceMetadata) :
    Indexes (Insert.insert (toLex (info.lastAccessed, key)) (CacheManager.unindex lru m key))
      (m.insert key info) := by
  intro t k
  rw [mem_insert, h.erase key t k]
  by_cases hk : k = key
  · subst hk
    simp [eq_comm]
  · simp [hk]

lemma filter (h : Indexes lru m) (p : Str → Bool) :
    Indexes (lru.filter fun e => p (ofLex e).2 = true) (m.filter p) := by
  intro t k
  rw [mem_filter, h t k]
  by_cases hp : p k = true <;> simp [hp]

lemma of_lruOf (m : FinMap Str PieceMetadata) : Indexes (CacheManager.lruOf m) m := by
  intro t k
  unfold CacheManager.lruOf
  rw [mem_image]
  constructor
  · rintro ⟨key, hkey, heq⟩
    obtain ⟨rfl, rfl⟩ : m.weight PieceMetadata.lastAccessed key = t ∧ key = k := by
      simpa using heq
    obtain ⟨info, hget⟩ := FinMap.mem_keys_iff_exists.mp hkey
    exact ⟨info, hget, (weight_of_get hget).symm⟩
  · rintro ⟨info, hget, rfl⟩
    exact ⟨k, mem_keys_of_get hget, by rw [weight_of_get hget]⟩

lemma eq_lruOf (h : Indexes lru m) : lru = CacheManager.lruOf m := by
  ext e
  exact (h (ofLex e).1 (ofLex e).2).trans (of_lruOf m (ofLex e).1 (ofLex e).2).symm

lemma card_eq (h : Indexes lru m) : lru.card = m.keys.card := by
  rw [h.eq_lruOf, CacheManager.lruOf]
  apply card_image_of_injective
  intro k k' heq
  exact (Prod.mk.inj (toLex.injective heq)).2

end Indexes

namespace CacheManager

def Indexed (c : CacheManager) : Prop := Indexes c.lru c.metadata

variable {c : CacheManager} {f : Faults}

lemma Indexed.removePiece {c' : CacheManager} (h : Indexed c) {key : Str}
    (hrm : c.removePiece f key = .ok c') : Indexed c' := by
  have hremoved := removed_of_removePiece hrm
  unfold Indexed
  rw [hremoved.lru, hremoved.metadata]
  exact h.erase key

lemma kept_indexed : Kept Indexed := ⟨fun h => h.removePiece, id, id, id⟩

lemma Indexed.step {c' : CacheManager} {op : CacheOp} (h : Indexed c)
    (hstep : c.step op = some c') : Indexed c' := by
  cases op with
  | startup content maxCacheSize clock saveFails =>
    rw [new_eq_ok (new_of_step hstep)]
    exact .of_lruOf _
  | recordAccess now key =>
    cases hstep
    unfold CacheManager.recordAccess
    cases hget : c.metadata.get key with
    | none => exact h
    | some info => exact h.insert key { info with lastAccessed := now, hitCount := _ }
  | addPiece now f key size =>
    cases hstep
    exact kept_indexed.addPiece h fun _ => h.insert key ⟨now, size, _⟩
  | registerIncompletePiece now f key size =>
    cases hstep
    exact kept_indexed.registerIncompletePiece h fun _ _ _ => h.insert key ⟨now, size, _⟩
  | evictLru f =>
    cases hstep
    exact kept_indexed.evictLru h f
  | deletePiece f key =>
    cases hstep
    exact kept_indexed.deletePiece h f key
  | dropInfohashState infoHash =>
    cases hstep
    have hdrop := h.filter fun key => !ofInfohash infoHash key
    simp only [Bool.not_eq_true'] at hdrop
    exact hdrop
  | markVerified key =>
    cases hstep
    exact h

lemma indexed_of_run {content : CacheContent} {maxCacheSize : ℕ} {clock : Str → ℕ}
    {saveFails : Bool} {c₀ : CacheManager} {ops : List CacheOp}
    (hnew : new content maxCacheSize clock saveFails = .ok c₀)
    (hrun : Run.runFrom CacheManager.step c₀ ops = some c) : Indexed c := by
  refine Run.invariant_of_run (fun _ _ _ hinv hstep => Indexed.step hinv hstep) ?_ hrun
  rw [new_eq_ok hnew]
  exact .of_lruOf _

/-! ### The tags -/

/-- Incomplete pieces are registered and not verified. -/
structure TagsKept (c : CacheManager) : Prop where
  registered : c.incompletePieceKeys ⊆ c.metadata.keys
  disjoint : Disjoint c.incompletePieceKeys c.verifiedPieceKeys

namespace TagsKept

variable {c c' : CacheManager}

lemma of_new {content : CacheContent} {maxCacheSize : ℕ} {clock : Str → ℕ} {saveFails : Bool}
    (h : new content maxCacheSize clock saveFails = .ok c) : TagsKept c := by
  constructor
  · intro key hkey
    exact ((mem_incomplete_new h key).mp hkey).1
  · rw [verified_new h]
    exact disjoint_empty_right _

section

variable (h : TagsKept c)
include h

lemma removePiece {f : Faults} {key : Str} (hrm : c.removePiece f key = .ok c') : TagsKept c' := by
  have hremoved := removed_of_removePiece hrm
  constructor
  · rw [hremoved.incomplete, hremoved.metadata, keys_erase]
    exact erase_subset_erase key h.registered
  · rw [hremoved.incomplete, hremoved.verified]
    exact h.disjoint.mono (erase_subset _ _) (erase_subset _ _)

lemma setComplete (now : ℕ) (f : Faults) (key : Str) (size : ℕ) :
    TagsKept ((c.upsertRecord now key size).setComplete f key) := by
  constructor
  · intro k hk
    exact mem_insert_of_mem (h.registered (mem_of_mem_erase hk))
  · show Disjoint (c.incompletePieceKeys.erase key) (insert key c.verifiedPieceKeys)
    rw [disjoint_insert_right]
    exact ⟨notMem_erase _ _, h.disjoint.mono_left (erase_subset _ _)⟩

lemma setIncomplete (now : ℕ) (key : Str) (size : ℕ) :
    TagsKept ((c.upsertRecord now key size).setIncomplete key) := by
  constructor
  · show insert key c.incompletePieceKeys ⊆ insert key c.metadata.keys
    exact insert_subset_insert key h.registered
  · show Disjoint (insert key c.incompletePieceKeys) (c.verifiedPieceKeys.erase key)
    rw [disjoint_insert_left]
    exact ⟨notMem_erase _ _, h.disjoint.mono_right (erase_subset _ _)⟩

end

lemma kept_tagsKept : Kept TagsKept :=
  ⟨fun h => h.removePiece, fun h => ⟨h.1, h.2⟩, fun h => ⟨h.1, h.2⟩, fun h => ⟨h.1, h.2⟩⟩

lemma step {op : CacheOp} (h : TagsKept c) (hstep : c.step op = some c') : TagsKept c' := by
  cases op with
  | startup content maxCacheSize clock saveFails => exact of_new (new_of_step hstep)
  | recordAccess now key =>
    cases hstep
    unfold CacheManager.recordAccess
    cases hget : c.metadata.get key with
    | none => exact ⟨h.registered, h.disjoint⟩
    | some info => exact ⟨h.registered.trans (Finset.subset_insert _ _), h.disjoint⟩
  | addPiece now f key size =>
    cases hstep
    exact kept_tagsKept.addPiece h fun _ => h.setComplete now f key size
  | registerIncompletePiece now f key size =>
    cases hstep
    exact kept_tagsKept.registerIncompletePiece h fun _ _ _ =>
      (kept_tagsKept.marked h).setIncomplete now key size
  | evictLru f =>
    cases hstep
    exact kept_tagsKept.evictLru h f
  | deletePiece f key =>
    cases hstep
    exact kept_tagsKept.deletePiece h f key
  | dropInfohashState infoHash =>
    cases hstep
    constructor
    · intro key hkey
      obtain ⟨hinc, hother⟩ := Finset.mem_filter.mp hkey
      exact Finset.mem_filter.mpr ⟨h.registered hinc, by simpa using hother⟩
    · exact h.disjoint.mono (filter_subset _ _) (filter_subset _ _)
  | markVerified key =>
    cases hstep
    constructor
    · exact (erase_subset _ _).trans h.registered
    · exact (h.setComplete 0 .none key 0).disjoint

end TagsKept

/-- After startup and every run, with any clock values, the access order holds one entry for each
registered piece and nothing else, and the incomplete pieces are registered and not verified. -/
theorem index_and_tags_of_run {content : CacheContent} {maxCacheSize : ℕ} {clock : Str → ℕ}
    {saveFails : Bool} {c₀ c : CacheManager} {ops : List CacheOp}
    (hnew : new content maxCacheSize clock saveFails = .ok c₀)
    (hrun : Run.runFrom CacheManager.step c₀ ops = some c) : (∀ t key, toLex (t, key) ∈ c.lru ↔
        ∃ info, c.metadata.get key = some info ∧ info.lastAccessed = t) ∧
      c.lru.card = c.metadata.keys.card ∧ c.incompletePieceKeys ⊆ c.metadata.keys ∧
      Disjoint c.incompletePieceKeys c.verifiedPieceKeys := by
  have hindexed : Indexed c := indexed_of_run hnew hrun
  have htags : TagsKept c :=
    Run.invariant_of_run (fun _ _ _ hinv hstep => TagsKept.step hinv hstep) (.of_new hnew) hrun
  exact ⟨hindexed, hindexed.card_eq, htags.registered, htags.disjoint⟩

theorem index_and_tags_of_completed_piece :
    ∃ c₀ c, new ⟨none, none⟩ 1000 (fun _ => 0) false = .ok c₀ ∧
      Run.runFrom CacheManager.step c₀ [.registerIncompletePiece 9 .none sampleKey 40,
        .recordAccess 2 sampleKey, .addPiece 2 .none sampleKey 100] = some c ∧
      c.metadata.keys = {sampleKey} ∧ c.lru.card = c.metadata.keys.card ∧
      Disjoint c.incompletePieceKeys c.verifiedPieceKeys := by
  obtain ⟨c₀, hnew⟩ : ∃ c₀, new ⟨none, none⟩ 1000 (fun _ => 0) false = .ok c₀ := ⟨_, rfl⟩
  obtain ⟨c, hrun⟩ : ∃ c, Run.runFrom CacheManager.step c₀
      [.registerIncompletePiece 9 .none sampleKey 40, .recordAccess 2 sampleKey,
        .addPiece 2 .none sampleKey 100] = some c := ⟨_, rfl⟩
  obtain ⟨-, hcard, -, hdisjoint⟩ := index_and_tags_of_run hnew hrun
  refine ⟨c₀, c, hnew, hrun, ?_, hcard, hdisjoint⟩
  cases hnew
  cases hrun
  decide

/-! ### The eviction loop ends -/

def untried (p : CacheManager × Finset Str) : Finset (ℕ ×ₗ Str) :=
  p.1.lru.filter fun e => (ofLex e).2 ∉ p.2

lemma Indexed.lru_removePiece {c₁ : CacheManager} (h : Indexed c) {e : ℕ ×ₗ Str}
    (hmem : e ∈ c.lru) (hrm : c.removePiece f (ofLex e).2 = .ok c₁) : c₁.lru = c.lru.erase e := by
  obtain ⟨info, hget, htime⟩ := (h (ofLex e).1 (ofLex e).2).mp hmem
  rw [(removed_of_removePiece hrm).lru, unindex, hget]
  show c.lru.erase (toLex (info.lastAccessed, (ofLex e).2)) = _
  rw [htime]
  rfl

lemma untried_evictStep {p p' : CacheManager × Finset Str} (h : Indexed p.1)
    (hstep : evictStep f p = some p') : Indexed p'.1 ∧ (untried p').card < (untried p).card := by
  obtain ⟨c, skipped⟩ := p
  obtain ⟨e, -, hold, hout⟩ := evictStep_cases hstep
  obtain ⟨hmem, -, hskip, -⟩ := oldest_eq_some hold
  have huntried : e ∈ untried (c, skipped) := Finset.mem_filter.mpr ⟨hmem, hskip⟩
  -- both outcomes leave a subset of the untried entries that lacks `e`
  suffices hlt : Indexed p'.1 ∧ untried p' ⊆ (untried (c, skipped)).erase e by
    refine ⟨hlt.1, lt_of_le_of_lt (card_le_card hlt.2) ?_⟩
    exact card_erase_lt_of_mem huntried
  rcases hout with ⟨c₁, hrm, rfl⟩ | ⟨-, rfl⟩
  · have hremoved : Indexed c₁ := Indexed.removePiece h hrm
    refine ⟨hremoved, fun x hx => ?_⟩
    obtain ⟨hx, hxs⟩ := Finset.mem_filter.mp hx
    replace hx : x ∈ c.lru.erase e := h.lru_removePiece hmem hrm ▸ hx
    exact Finset.mem_erase.mpr ⟨ne_of_mem_erase hx,
      Finset.mem_filter.mpr ⟨mem_of_mem_erase hx, hxs⟩⟩
  · refine ⟨h, fun x hx => ?_⟩
    obtain ⟨hx, hxs⟩ := Finset.mem_filter.mp hx
    simp only [mem_insert, not_or] at hxs
    exact Finset.mem_erase.mpr ⟨fun heq => hxs.1 (by rw [heq]),
      Finset.mem_filter.mpr ⟨hx, hxs.2⟩⟩

lemma evictStep_evictLoop (n : ℕ) (p : CacheManager × Finset Str)
    (h : Indexed p.1) (hn : (untried p).card ≤ n) : evictStep f (evictLoop f n p) = none := by
  induction n generalizing p with
  | zero =>
    cases hstep : evictStep f p with
    | none => exact hstep
    | some p' =>
      have := (untried_evictStep h hstep).2
      omega
  | succ n ih =>
    unfold evictLoop
    cases hstep : evictStep f p with
    | none => exact hstep
    | some p' =>
      obtain ⟨hindexed, hlt⟩ := untried_evictStep h hstep
      exact ih p' hindexed (by omega)

lemma evictStep_evictLru (h : Indexed c) (f : Faults) : evictStep f (c.evictLru f) = none :=
  evictStep_evictLoop _ _ h (card_le_card (filter_subset _ _))

end CacheManager

end TorrentFs.Cache
