import TorrentFs.Cache.Accounting
import TorrentFs.Lib.Publisher

/-!
# Snapshots of the metadata map

The metadata map is saved from snapshots. `take_dirty_snapshot` copies it under the cache lock
and clears the dirty flag; the engine writes the copy later, without the lock, and sets the flag
again when the write fails. `flush` does both while it holds the lock. `MetadataWriter::write`
publishes a snapshot by a rename, unless one of a later generation is already published.

The development counts the snapshots beside the source's 64-bit generation: `taken` is the
position of a snapshot in the order in which they were taken, and does not wrap.
-/

namespace TorrentFs.Cache

open Text Word List Option FinMap

abbrev MetadataRecord := Str × PieceMetadata

/-- `CacheMetadataSnapshot`, with its position in the order of all snapshots. -/
structure MetadataSnapshot where
  generation : ℕ
  entries : List MetadataRecord
  taken : ℕ

inductive MetadataWriteError
  | createScratch
  | writeScratch
  | flushScratch
  | fsyncScratch
  | replaceFile
deriving DecidableEq

structure MetadataWriter where
  publishedGeneration : ℕ
  file : List MetadataRecord

/-- `MetadataWriter::write`: a snapshot that is not newer than the published one is skipped, and
a failure before or at the rename leaves the file as it was. -/
def MetadataWriter.write (w : MetadataWriter) (snapshot : MetadataSnapshot)
    (fault : Option MetadataWriteError) : MetadataWriter × Except MetadataWriteError Unit :=
  if snapshot.generation ≤ w.publishedGeneration then (w, .ok ())
  else
    match fault with
    | some e => (w, .error e)
    | none => (⟨snapshot.generation, snapshot.entries⟩, .ok ())

def recordsOf (m : FinMap Str PieceMetadata) (order : List Str) : List MetadataRecord :=
  order.filterMap fun key => (m.get key).map fun info => (key, info)

def IterationOrder (m : FinMap Str PieceMetadata) (order : List Str) : Prop :=
  order.Nodup ∧ order.toFinset = m.keys

instance (m : FinMap Str PieceMetadata) (order : List Str) : Decidable (IterationOrder m order) :=
  inferInstanceAs (Decidable (_ ∧ _))

def Describes (records : List MetadataRecord) (m : FinMap Str PieceMetadata) : Prop :=
  (records.map Prod.fst).Nodup ∧ ∀ key info, (key, info) ∈ records ↔ m.get key = some info

namespace CacheManager

def nextSnapshot (c : CacheManager) (order : List Str) (taken : ℕ) :
    CacheManager × MetadataSnapshot :=
  let generation := addU64 c.snapshotGeneration 1
  ({ c with snapshotGeneration := generation },
    ⟨generation, recordsOf c.metadata order, taken + 1⟩)

def takeDirtySnapshot (c : CacheManager) (order : List Str) (taken : ℕ) :
    CacheManager × Option MetadataSnapshot :=
  if c.metadataDirty then
    let (c', snapshot) := { c with metadataDirty := false }.nextSnapshot order taken
    (c', some snapshot)
  else (c, none)

def markMetadataDirty (c : CacheManager) : CacheManager := { c with metadataDirty := true }

end CacheManager

/-- The cache, its writer, and the snapshots between the two. -/
structure MetadataSystem where
  cache : CacheManager
  writer : MetadataWriter
  /-- The snapshots taken and not yet written. -/
  waiting : List MetadataSnapshot
  /-- The writes that failed and whose `mark_metadata_dirty` is still to come. -/
  unmarked : ℕ
  /-- The snapshot of the `flush` that holds the cache lock. -/
  flushing : Option MetadataSnapshot
  /-- The number of snapshots taken. -/
  taken : ℕ
  /-- The snapshots whose write returned without an error. -/
  succeeded : List MetadataSnapshot

/-- A step of a thread that uses the cache or saves its metadata. -/
inductive MetadataAction
  -- a call that changes the cache, under its lock
  | call (op : CacheOp)
  | takeDirtySnapshot (order : List Str)
  -- the write of the `i`-th waiting snapshot, without the cache lock
  | write (i : ℕ) (fault : Option MetadataWriteError)
  | markMetadataDirty
  -- `flush` up to its snapshot, and its write with the rest
  | flush (order : List Str)
  | flushWrite (fault : Option MetadataWriteError)

def CacheOp.isStartup : CacheOp → Bool
  | .startup .. => true
  | _ => false

namespace MetadataSystem

def start (c : CacheManager) (order : List Str) : MetadataSystem where
  cache := c
  writer := ⟨c.snapshotGeneration, recordsOf c.metadata order⟩
  waiting := []
  unmarked := 0
  flushing := none
  taken := 1
  succeeded := [⟨c.snapshotGeneration, recordsOf c.metadata order, 1⟩]

/-- The system after a step, `none` when the step cannot happen. While a flush holds the cache
lock only the writes go on. -/
def step (s : MetadataSystem) : MetadataAction → Option MetadataSystem
  | .call op =>
    if s.flushing.isNone ∧ op.isStartup = false then
      (s.cache.step op).map fun c => { s with cache := c }
    else none
  | .takeDirtySnapshot order =>
    if s.flushing.isNone ∧ IterationOrder s.cache.metadata order then
      match s.cache.takeDirtySnapshot order s.taken with
      | (c, none) => some { s with cache := c }
      | (c, some snapshot) =>
        some { s with cache := c, waiting := snapshot :: s.waiting, taken := s.taken + 1 }
    else none
  | .write i fault =>
    match s.waiting[i]? with
    | none => none
    | some snapshot =>
      match s.writer.write snapshot fault with
      | (w, .ok ()) =>
        some { s with
          writer := w
          waiting := s.waiting.eraseIdx i
          succeeded := snapshot :: s.succeeded }
      | (w, .error _) =>
        some { s with
          writer := w, waiting := s.waiting.eraseIdx i, unmarked := s.unmarked + 1 }
  | .markMetadataDirty =>
    if s.flushing.isNone ∧ 0 < s.unmarked then
      some { s with cache := s.cache.markMetadataDirty, unmarked := s.unmarked - 1 }
    else none
  | .flush order =>
    if s.flushing.isNone ∧ IterationOrder s.cache.metadata order then
      let (c, snapshot) := s.cache.nextSnapshot order s.taken
      some { s with cache := c, flushing := some snapshot, taken := s.taken + 1 }
    else none
  | .flushWrite fault =>
    match s.flushing with
    | none => none
    | some snapshot =>
      match s.writer.write snapshot fault with
      | (w, .ok ()) =>
        some { s with
          writer := w
          cache := { s.cache with metadataDirty := false }
          flushing := none
          succeeded := snapshot :: s.succeeded }
      | (w, .error _) =>
        some { s with
          writer := w
          cache := { s.cache with metadataDirty := true }
          flushing := none }

/-- The published file is `snapshot`, and no snapshot whose write succeeded was taken later. -/
def Holds (s : MetadataSystem) (snapshot : MetadataSnapshot) : Prop :=
  snapshot ∈ s.succeeded ∧ s.writer.file = snapshot.entries ∧
    ∀ other ∈ s.succeeded, other.taken ≤ snapshot.taken

/-- The dirty flag is clear and no snapshot is waiting to be written or to be marked again. -/
def Settled (s : MetadataSystem) : Prop :=
  s.cache.metadataDirty = false ∧ s.waiting = [] ∧ s.unmarked = 0 ∧ s.flushing = none

end MetadataSystem

lemma describes_recordsOf {m : FinMap Str PieceMetadata} {order : List Str}
    (h : IterationOrder m order) : Describes (recordsOf m order) m := by
  obtain ⟨hnodup, hkeys⟩ := h
  have hmem : ∀ key, key ∈ order ↔ key ∈ m.keys := fun key => by
    rw [← hkeys, List.mem_toFinset]
  constructor
  · -- every key of the order has a record, so the keys of the records are the order
    have hfst : (recordsOf m order).map Prod.fst = order := by
      rw [recordsOf, map_filterMap]
      conv_rhs => rw [← filterMap_some (l := order)]
      apply filterMap_congr
      intro key hkey
      obtain ⟨info, hget⟩ := FinMap.mem_keys_iff_exists.mp ((hmem key).mp hkey)
      simp [hget]
    rwa [hfst]
  · intro key info
    rw [recordsOf, mem_filterMap]
    constructor
    · rintro ⟨k, -, hk⟩
      obtain ⟨info', hget, heq⟩ := Option.map_eq_some_iff.mp hk
      cases heq
      exact hget
    · intro hget
      exact ⟨key, (hmem key).mpr (mem_keys_of_get hget), by rw [hget]; rfl⟩

/-! ### What the calls of the cache do to the map and the flag -/

namespace CacheManager

/-- A change of the map raises the dirty flag; the generation stays. -/
structure Marks (c c' : CacheManager) : Prop where
  generation : c'.snapshotGeneration = c.snapshotGeneration
  keysValid : ∀ key ∈ c'.metadata.keys, isValidPieceKey key = true
  clean : c'.metadataDirty = false → c.metadataDirty = false ∧ c'.metadata = c.metadata

variable {c : CacheManager}

lemma Marks.refl (hvalid : ∀ key ∈ c.metadata.keys, isValidPieceKey key = true) : Marks c c :=
  ⟨rfl, hvalid, fun hclean => ⟨hclean, rfl⟩⟩

lemma Marks.removePiece {c₁ c₂ : CacheManager} {f : Faults} {key : Str} (h : Marks c c₁)
    (hremove : c₁.removePiece f key = .ok c₂) : Marks c c₂ := by
  have hkeys : ∀ k ∈ (c₁.metadata.erase key).keys, isValidPieceKey k = true := fun k hk =>
    h.keysValid k (Finset.mem_of_mem_erase hk)
  unfold CacheManager.removePiece at hremove
  split at hremove
  · next hinvalid =>
    cases hremove
    -- a key that is not valid is not registered, so forgetting it changes nothing
    have hnone : c₁.metadata.get key = none := by
      apply FinMap.notMem_keys.mp
      intro hmem
      simp [h.keysValid key hmem] at hinvalid
    have hsame : c₁.metadata.erase key = c₁.metadata := erase_of_get_none hnone
    exact ⟨h.generation, hkeys, fun hclean => ⟨(h.clean hclean).1,
      hsame.trans (h.clean hclean).2⟩⟩
  · split at hremove
    · cases hremove
    · cases hremove
      exact ⟨h.generation, hkeys, fun hclean => by cases hclean⟩

lemma marks_evictLru (hvalid : ∀ key ∈ c.metadata.keys, isValidPieceKey key = true) (f : Faults) :
    Marks c (c.evictLru f).1 :=
  evictLoop_preserves (fun _ _ _ h _ hremove => h.removePiece hremove)
    (fun _ _ h => ⟨h.generation, h.keysValid, h.clean⟩) _ _ (.refl hvalid)

lemma marks_registration {base : CacheManager} {f : Faults} {key : Str} {info : PieceMetadata}
    (hvalid : ∀ key ∈ c.metadata.keys, isValidPieceKey key = true)
    (hkey : isValidPieceKey key = true) (hmap : base.metadata = c.metadata.insert key info)
    (hgen : base.snapshotGeneration = c.snapshotGeneration) :
    Marks c { base.evictIfOver f with metadataDirty := true } := by
  have hbase : ∀ k ∈ base.metadata.keys, isValidPieceKey k = true := by
    intro k hk
    rw [hmap, keys_insert, Finset.mem_insert] at hk
    rcases hk with rfl | hk
    · exact hkey
    · exact hvalid k hk
  have hevict : Marks base (base.evictIfOver f) :=
    evictIfOver_preserves (fun _ _ _ h _ hremove => h.removePiece hremove)
      (fun _ _ h => ⟨h.generation, h.keysValid, h.clean⟩) (.refl hbase)
  exact ⟨hevict.generation.trans hgen, hevict.keysValid, fun hclean => by cases hclean⟩

lemma marks_step {c' : CacheManager} {op : CacheOp}
    (hvalid : ∀ key ∈ c.metadata.keys, isValidPieceKey key = true)
    (hop : op.isStartup = false) (hstep : c.step op = some c') : Marks c c' := by
  cases op with
  | startup content maxCacheSize clock saveFails => cases hop
  | recordAccess now key =>
    cases hstep
    unfold CacheManager.recordAccess
    cases hget : c.metadata.get key with
    | none => exact ⟨rfl, hvalid, fun hclean => ⟨hclean, rfl⟩⟩
    | some info =>
      refine ⟨rfl, fun k hk => ?_, fun hclean => by cases hclean⟩
      rcases Finset.mem_insert.mp hk with rfl | hk
      · exact hvalid k (mem_keys_of_get hget)
      · exact hvalid k hk
  | addPiece now f key size =>
    cases hstep
    rcases addPiece_cases c now f key size with heq | ⟨hkey, heq⟩
    · rw [heq]
      exact .refl hvalid
    · rw [heq]
      exact marks_registration (f := f) hvalid hkey rfl rfl
  | registerIncompletePiece now f key size =>
    cases hstep
    rcases registerIncompletePiece_cases c now f key size with
      ⟨-, heq⟩ | ⟨-, heq⟩ | ⟨hkey, -, -, heq⟩
    · rw [heq]
      exact .refl hvalid
    · rw [heq]
      exact ⟨rfl, hvalid, fun hclean => ⟨hclean, rfl⟩⟩
    · rw [heq]
      exact marks_registration (f := f) hvalid hkey rfl rfl
  | evictLru f =>
    cases hstep
    exact marks_evictLru hvalid f
  | deletePiece f key =>
    cases hstep
    rcases deletePiece_cases c f key with heq | hremove
    · rw [heq]
      exact .refl hvalid
    · exact (Marks.refl hvalid).removePiece hremove
  | dropInfohashState infoHash =>
    cases hstep
    refine ⟨rfl, fun k hk => ?_, fun hclean => by cases hclean⟩
    exact hvalid k (Finset.mem_of_mem_filter k hk)
  | markVerified key =>
    cases hstep
    exact ⟨rfl, hvalid, fun hclean => ⟨hclean, rfl⟩⟩

end CacheManager

/-! ### The system refines the protocol -/

def MetadataSnapshot.toPublisher (p : MetadataSnapshot) :
    Publisher.Snapshot (List MetadataRecord) :=
  ⟨p.generation, p.entries⟩

namespace MetadataSystem

def toPublisher (s : MetadataSystem) :
    Publisher.State (FinMap Str PieceMetadata) (List MetadataRecord) where
  current := s.cache.metadata
  dirty := s.cache.metadataDirty
  generation := s.cache.snapshotGeneration
  file := ⟨s.writer.publishedGeneration, s.writer.file⟩
  waiting := s.waiting.map MetadataSnapshot.toPublisher
  unmarked := s.unmarked
  flushing := s.flushing.map MetadataSnapshot.toPublisher
  succeeded := s.succeeded.map MetadataSnapshot.toPublisher

/-- The generations count the snapshots, and only valid keys are registered. -/
structure Counted (s : MetadataSystem) : Prop where
  keysValid : ∀ key ∈ s.cache.metadata.keys, isValidPieceKey key = true
  generation : s.cache.snapshotGeneration = s.taken
  waiting : ∀ p ∈ s.waiting, p.generation = p.taken
  flushing : ∀ p, s.flushing = some p → p.generation = p.taken
  succeeded : ∀ p ∈ s.succeeded, p.generation = p.taken

variable {s t : MetadataSystem}

lemma flushing_toPublisher (h : s.flushing.isNone = true) : s.toPublisher.flushing = none := by
  simpa [toPublisher] using h

section

variable (h : s.Counted)
include h

lemma addU64_generation (hbound : s.taken + 1 < 2 ^ 64) :
    addU64 s.cache.snapshotGeneration 1 = s.cache.snapshotGeneration + 1 :=
  addU64_of_lt (h.generation ▸ hbound)

lemma step_call {op : CacheOp} (hstep : s.step (.call op) = some t) :
    Publisher.Step Describes s.toPublisher t.toPublisher ∧ t.Counted := by
  simp only [step, ite_none_right_eq_some, map_eq_some_iff] at hstep
  obtain ⟨⟨hfree, hop⟩, c, hcall, rfl⟩ := hstep
  have hmarks := CacheManager.marks_step h.keysValid hop hcall
  constructor
  · have hchange : Publisher.Step Describes s.toPublisher _ :=
      .change c.metadata c.metadataDirty (flushing_toPublisher hfree) hmarks.clean
    simpa only [toPublisher, hmarks.generation] using hchange
  · exact ⟨hmarks.keysValid, hmarks.generation.trans h.generation, h.waiting, h.flushing,
      h.succeeded⟩

lemma step_takeDirtySnapshot {order : List Str}
    (hstep : s.step (.takeDirtySnapshot order) = some t) (hbound : t.taken < 2 ^ 64) :
    Publisher.Step Describes s.toPublisher t.toPublisher ∧ t.Counted := by
  simp only [step, ite_none_right_eq_some] at hstep
  obtain ⟨⟨hfree, horder⟩, htake⟩ := hstep
  cases hdirty : s.cache.metadataDirty with
  | false =>
    simp only [CacheManager.takeDirtySnapshot, hdirty, Bool.false_eq_true, if_false,
      Option.some.injEq] at htake
    subst htake
    refine ⟨?_, h⟩
    have hchange : Publisher.Step Describes s.toPublisher _ :=
      .change s.cache.metadata s.cache.metadataDirty (flushing_toPublisher hfree)
        fun hclean => ⟨hclean, rfl⟩
    exact hchange
  | true =>
    simp only [CacheManager.takeDirtySnapshot, hdirty, if_true, CacheManager.nextSnapshot,
      Option.some.injEq] at htake
    subst htake
    have hnext := addU64_generation h hbound
    constructor
    · have htake : Publisher.Step Describes s.toPublisher _ :=
        .take (recordsOf s.cache.metadata order) (flushing_toPublisher hfree)
          (describes_recordsOf horder)
      simpa only [toPublisher, hnext, map_cons, MetadataSnapshot.toPublisher] using htake
    · refine ⟨h.keysValid, ?_, ?_, h.flushing, h.succeeded⟩
      · rw [hnext, h.generation]
      · intro p hp
        rcases List.mem_cons.mp hp with rfl | hp
        · rw [hnext, h.generation]
        · exact h.waiting p hp

lemma step_markMetadataDirty (hstep : s.step .markMetadataDirty = some t) :
    Publisher.Step Describes s.toPublisher t.toPublisher ∧ t.Counted := by
  simp only [step, ite_none_right_eq_some, Option.some.injEq] at hstep
  obtain ⟨⟨hfree, hfailed⟩, rfl⟩ := hstep
  exact ⟨.mark (flushing_toPublisher hfree) hfailed,
    ⟨h.keysValid, h.generation, h.waiting, h.flushing, h.succeeded⟩⟩

lemma step_write {i : ℕ} {fault : Option MetadataWriteError}
    (hstep : s.step (.write i fault) = some t) :
    Publisher.Step Describes s.toPublisher t.toPublisher ∧ t.Counted := by
  simp only [step] at hstep
  cases hget : s.waiting[i]? with
  | none => simp [hget] at hstep
  | some p =>
    have hp : s.toPublisher.waiting[i]? = some p.toPublisher := by
      simp [toPublisher, hget]
    have hrest : ∀ q ∈ s.waiting.eraseIdx i, q.generation = q.taken := fun q hq =>
      h.waiting q (mem_of_mem_eraseIdx hq)
    have hdone : ∀ q ∈ p :: s.succeeded, q.generation = q.taken :=
      List.forall_mem_cons.mpr ⟨h.waiting p (mem_of_getElem? hget), h.succeeded⟩
    by_cases hold : p.generation ≤ s.writer.publishedGeneration
    · simp only [hget, MetadataWriter.write, hold, if_true, Option.some.injEq] at hstep
      subst hstep
      refine ⟨?_, h.keysValid, h.generation, hrest, h.flushing, hdone⟩
      have hskip : Publisher.Step Describes s.toPublisher _ := .skip i p.toPublisher hp hold
      simpa only [toPublisher, eraseIdx_map, map_cons] using hskip
    · cases fault with
      | some e =>
        simp only [hget, MetadataWriter.write, hold, if_false, Option.some.injEq] at hstep
        subst hstep
        refine ⟨?_, h.keysValid, h.generation, hrest, h.flushing, h.succeeded⟩
        have hfail : Publisher.Step Describes s.toPublisher _ := .fail i p.toPublisher hp
        simpa only [toPublisher, eraseIdx_map] using hfail
      | none =>
        simp only [hget, MetadataWriter.write, hold, if_false, Option.some.injEq] at hstep
        subst hstep
        refine ⟨?_, h.keysValid, h.generation, hrest, h.flushing, hdone⟩
        have hpublish : Publisher.Step Describes s.toPublisher _ :=
          .publish i p.toPublisher hp (Nat.lt_of_not_le hold)
        simpa only [toPublisher, eraseIdx_map, map_cons,
          MetadataSnapshot.toPublisher] using hpublish

lemma step_flush {order : List Str} (hstep : s.step (.flush order) = some t)
    (hbound : t.taken < 2 ^ 64) :
    Publisher.Step Describes s.toPublisher t.toPublisher ∧ t.Counted := by
  simp only [step, CacheManager.nextSnapshot, ite_none_right_eq_some,
    Option.some.injEq] at hstep
  obtain ⟨⟨hfree, horder⟩, rfl⟩ := hstep
  have hnext := addU64_generation h hbound
  constructor
  · have hflush : Publisher.Step Describes s.toPublisher _ :=
      .flush (recordsOf s.cache.metadata order) (flushing_toPublisher hfree)
        (describes_recordsOf horder)
    simpa only [toPublisher, hnext, map_some, MetadataSnapshot.toPublisher] using hflush
  · refine ⟨h.keysValid, ?_, h.waiting, ?_, h.succeeded⟩
    · rw [hnext, h.generation]
    · intro p hp
      cases hp
      rw [hnext, h.generation]

lemma step_flushWrite {fault : Option MetadataWriteError}
    (hstep : s.step (.flushWrite fault) = some t) :
    Publisher.Step Describes s.toPublisher t.toPublisher ∧ t.Counted := by
  simp only [step] at hstep
  cases hget : s.flushing with
  | none => simp [hget] at hstep
  | some p =>
    have hp : s.toPublisher.flushing = some p.toPublisher := by
      simp [toPublisher, hget]
    have hdone : ∀ q ∈ p :: s.succeeded, q.generation = q.taken :=
      List.forall_mem_cons.mpr ⟨h.flushing p hget, h.succeeded⟩
    by_cases hold : p.generation ≤ s.writer.publishedGeneration
    · simp only [hget, MetadataWriter.write, hold, if_true, Option.some.injEq] at hstep
      subst hstep
      exact ⟨.flushSkip p.toPublisher hp hold, h.keysValid, h.generation, h.waiting,
        nofun, hdone⟩
    · cases fault with
      | some e =>
        simp only [hget, MetadataWriter.write, hold, if_false, Option.some.injEq] at hstep
        subst hstep
        exact ⟨.flushFail p.toPublisher hp, h.keysValid, h.generation, h.waiting,
          nofun, h.succeeded⟩
      | none =>
        simp only [hget, MetadataWriter.write, hold, if_false, Option.some.injEq] at hstep
        subst hstep
        exact ⟨.flushPublish p.toPublisher hp (Nat.lt_of_not_le hold), h.keysValid,
          h.generation, h.waiting, nofun, hdone⟩

lemma step_toPublisher {a : MetadataAction} (hstep : s.step a = some t)
    (hbound : t.taken < 2 ^ 64) :
    Publisher.Step Describes s.toPublisher t.toPublisher ∧ t.Counted := by
  cases a with
  | call op => exact step_call h hstep
  | takeDirtySnapshot order => exact step_takeDirtySnapshot h hstep hbound
  | write i fault => exact step_write h hstep
  | markMetadataDirty => exact step_markMetadataDirty h hstep
  | flush order => exact step_flush h hstep hbound
  | flushWrite fault => exact step_flushWrite h hstep

end

lemma taken_le_of_step {a : MetadataAction} (h : s.step a = some t) : s.taken ≤ t.taken := by
  cases a with
  | call op =>
    simp only [step, ite_none_right_eq_some, map_eq_some_iff] at h
    obtain ⟨-, c, -, rfl⟩ := h
    exact Nat.le_refl _
  | takeDirtySnapshot order =>
    simp only [step, ite_none_right_eq_some] at h
    obtain ⟨-, h⟩ := h
    split at h <;> cases h
    · exact Nat.le_refl _
    · exact Nat.le_succ _
  | write | flushWrite =>
    simp only [step] at h
    split at h
    · cases h
    · split at h <;> cases h <;> exact Nat.le_refl _
  | markMetadataDirty =>
    simp only [step, ite_none_right_eq_some, Option.some.injEq] at h
    obtain ⟨-, rfl⟩ := h
    exact Nat.le_refl _
  | flush order =>
    simp only [step, ite_none_right_eq_some, Option.some.injEq] at h
    obtain ⟨-, rfl⟩ := h
    exact Nat.le_succ _

lemma taken_le_of_run {actions : List MetadataAction}
    (h : Run.runFrom step s actions = some t) : s.taken ≤ t.taken :=
  @Run.invariant_of_run _ _ step (fun u => s.taken ≤ u.taken)
    (fun _ _ _ hle hstep => Nat.le_trans hle (taken_le_of_step hstep)) _ _ _ (Nat.le_refl _) h

lemma steps_toPublisher {actions : List MetadataAction}
    (h : s.Counted) (hrun : Run.runFrom step s actions = some t) (hbound : t.taken < 2 ^ 64) :
    Relation.ReflTransGen (Publisher.Step Describes) s.toPublisher t.toPublisher ∧ t.Counted := by
  induction actions generalizing s with
  | nil =>
    cases hrun
    exact ⟨.refl, h⟩
  | cons a actions ih =>
    obtain ⟨mid, hstep, hrest⟩ := Run.runFrom_cons_eq_some.mp hrun
    have hmid : mid.taken < 2 ^ 64 := Nat.lt_of_le_of_lt (taken_le_of_run hrest) hbound
    obtain ⟨hfirst, hcounted⟩ := step_toPublisher h hstep hmid
    obtain ⟨hsteps, hlast⟩ := ih hcounted hrest
    exact ⟨.head hfirst hsteps, hlast⟩

/-! ### The published file -/

section Startup

variable {content : CacheContent} {maxCacheSize : ℕ} {clock : Str → ℕ} {saveFails : Bool}
  {c : CacheManager} {order : List Str}

lemma counted_start (hnew : CacheManager.new content maxCacheSize clock saveFails = .ok c) :
    (start c order).Counted := by
  have hgen : c.snapshotGeneration = 1 := by rw [CacheManager.new_eq_ok hnew]
  refine ⟨?_, hgen, by simp [start], nofun, by simp [start, hgen]⟩
  intro key hkey
  obtain ⟨p, hp, rfl⟩ := List.mem_map.mp ((CacheManager.mem_keys_new hnew key).mp hkey)
  exact CacheManager.valid_of_mem_pieceFiles _ _ hp

lemma inv_start (horder : IterationOrder c.metadata order) :
    (start c order).toPublisher.Inv Describes := by
  have hknown : ∀ p, (start c order).toPublisher.Known p →
      p = ⟨c.snapshotGeneration, recordsOf c.metadata order⟩ := by
    rintro p (hwaiting | hsucceeded | hflushing)
    · simp [toPublisher, start] at hwaiting
    · simpa [toPublisher, start, MetadataSnapshot.toPublisher] using hsucceeded
    · simp [toPublisher, start] at hflushing
  refine ⟨⟨?_, ?_⟩, ?_, ?_, nofun, ?_⟩
  · intro p hp
    rw [hknown p hp]
    exact Nat.le_refl _
  · intro p q hp hq _
    rw [hknown p hp, hknown q hq]
  · simp [toPublisher, start, MetadataSnapshot.toPublisher]
  · intro p hp
    rw [hknown p (.inr (.inl hp))]
    exact Nat.le_refl _
  · intro _ _
    exact .inr ⟨_, .inr rfl, rfl, describes_recordsOf horder⟩

end Startup

lemma holds_of_inv (h : s.toPublisher.Inv Describes)
    (hcounted : s.Counted) : ∃ p, s.Holds p ∧ p.taken = s.writer.publishedGeneration := by
  obtain ⟨p, hp, heq⟩ := List.mem_map.mp h.published
  have hgen : p.generation = s.writer.publishedGeneration :=
    congrArg Publisher.Snapshot.generation heq
  have hentries : p.entries = s.writer.file := congrArg Publisher.Snapshot.entries heq
  have htaken := hcounted.succeeded p hp
  refine ⟨p, ⟨hp, hentries.symm, ?_⟩, htaken.symm.trans hgen⟩
  intro other hother
  have hle : other.generation ≤ s.writer.publishedGeneration :=
    h.newest _ (List.mem_map_of_mem hother)
  rw [← hcounted.succeeded other hother, ← htaken, hgen]
  exact hle

/-- From startup, over every interleaving that takes fewer than `2 ^ 64` snapshots: the published
file is the newest snapshot whose write succeeded, it never goes back to an older one, and it is
the map whenever the flag is clear and no snapshot is waiting to be written or marked again. -/
theorem published_file_of_run (content : CacheContent) (maxCacheSize : ℕ) (clock : Str → ℕ)
    (saveFails : Bool) (c : CacheManager) (order : List Str) (s t : MetadataSystem)
    (before after : List MetadataAction)
    (hnew : CacheManager.new content maxCacheSize clock saveFails = .ok c)
    (horder : IterationOrder c.metadata order)
    (hbefore : Run.runFrom step (start c order) before = some s)
    (hafter : Run.runFrom step s after = some t) (hbound : t.taken < 2 ^ 64) :
    (∃ p q, s.Holds p ∧ t.Holds q ∧ p.taken ≤ q.taken) ∧
      (t.Settled → Describes t.writer.file t.cache.metadata) := by
  have hmid : s.taken < 2 ^ 64 := Nat.lt_of_le_of_lt (taken_le_of_run hafter) hbound
  obtain ⟨hsteps₁, hs⟩ := steps_toPublisher (counted_start hnew) hbefore hmid
  obtain ⟨hsteps₂, ht⟩ := steps_toPublisher hs hafter hbound
  have hinvs := (inv_start horder).steps hsteps₁
  have hinvt := hinvs.steps hsteps₂
  constructor
  · obtain ⟨p, hp, hpgen⟩ := holds_of_inv hinvs hs
    obtain ⟨q, hq, hqgen⟩ := holds_of_inv hinvt ht
    refine ⟨p, q, hp, hq, ?_⟩
    rw [hpgen, hqgen]
    exact Publisher.State.generation_le_of_steps hsteps₂
  · rintro ⟨hdirty, hwaiting, hunmarked, hflushing⟩
    apply hinvt.described
    exact ⟨hdirty, by simp [toPublisher, hwaiting], hunmarked, by simp [toPublisher, hflushing]⟩

theorem published_file_after_retry :
    ∃ c s t, CacheManager.new ⟨none, none⟩ 10 (fun _ => 0) false = .ok c ∧
      Run.runFrom step (start c []) [.call (.addPiece 5 .none sampleKey 3),
        .takeDirtySnapshot [sampleKey], .write 0 (some .replaceFile)] = some s ∧
      Run.runFrom step s [.markMetadataDirty, .takeDirtySnapshot [sampleKey], .write 0 none] =
        some t ∧ t.Settled ∧ Describes t.writer.file t.cache.metadata := by
  refine ⟨_, _, _, rfl, rfl, rfl, ⟨rfl, rfl, rfl, rfl⟩, ?_⟩
  exact (published_file_of_run ⟨none, none⟩ 10 (fun _ => 0) false _ [] _ _
    [.call (.addPiece 5 .none sampleKey 3), .takeDirtySnapshot [sampleKey],
      .write 0 (some .replaceFile)]
    [.markMetadataDirty, .takeDirtySnapshot [sampleKey], .write 0 none]
    rfl (by decide) rfl rfl (by decide)).2 ⟨rfl, rfl, rfl, rfl⟩

/-! ### The generation wraps -/

/-- Nothing is under way, at generation `g`. -/
structure IdleAt (c : CacheManager) (g : ℕ) (s : MetadataSystem) : Prop where
  cache : s.cache = { c with snapshotGeneration := g }
  writer : s.writer = ⟨g, []⟩
  waiting : s.waiting = []
  unmarked : s.unmarked = 0
  flushing : s.flushing = none

def emptyFlush : List MetadataAction := [.flush [], .flushWrite none]

lemma IdleAt.flush {c : CacheManager} {g : ℕ} (h : IdleAt c g s)
    (hempty : c.metadata.keys = ∅) (hclean : c.metadataDirty = false) (hg : g + 1 < 2 ^ 64) :
    ∃ t, Run.runFrom step s emptyFlush = some t ∧ IdleAt c (g + 1) t := by
  obtain ⟨cache, writer, waiting, unmarked, flushing, taken, succeeded⟩ := s
  obtain ⟨rfl, rfl, rfl, rfl, rfl⟩ := h
  have horder : IterationOrder c.metadata [] := ⟨nodup_nil, hempty.symm⟩
  have hnext : addU64 g 1 = g + 1 := addU64_of_lt hg
  have hnew : ¬ g + 1 ≤ g := by omega
  refine ⟨⟨{ c with snapshotGeneration := g + 1, metadataDirty := false }, ⟨g + 1, []⟩, [], 0,
    none, taken + 1, ⟨g + 1, [], taken + 1⟩ :: succeeded⟩, ?_, ?_⟩
  · simp [emptyFlush, Run.runFrom, step, CacheManager.nextSnapshot, horder, hnext,
      MetadataWriter.write, hnew, recordsOf]
  · exact ⟨by rw [← hclean], rfl, rfl, rfl, rfl⟩

lemma IdleAt.flushes {c : CacheManager} (hempty : c.metadata.keys = ∅)
    (hclean : c.metadataDirty = false) (n : ℕ) {g : ℕ} (h : IdleAt c g s) (hg : g + n < 2 ^ 64) :
    ∃ t, Run.runFrom step s (List.replicate n emptyFlush).flatten = some t ∧
      IdleAt c (g + n) t := by
  induction n generalizing g s with
  | zero => exact ⟨s, rfl, h⟩
  | succ n ih =>
    obtain ⟨mid, hfirst, hmid⟩ := h.flush hempty hclean (by omega)
    obtain ⟨t, hrest, ht⟩ := ih hmid (by omega)
    refine ⟨t, ?_, ?_⟩
    · rw [replicate_succ, flatten_cons]
      exact Run.runFrom_append.mpr ⟨mid, hfirst, hrest⟩
    · rwa [Nat.add_assoc, Nat.add_comm 1 n] at ht

def emptyCache : CacheManager :=
  { CacheManager.reconcile (CacheManager.fresh ⟨none, none⟩ 10, ∅) with
    snapshotGeneration := 1, metadataDirty := false }

lemma flush_lost (s : MetadataSystem) (order : List Str)
    (hgen : s.cache.snapshotGeneration = 2 ^ 64 - 1) (hfree : s.flushing = none)
    (horder : IterationOrder s.cache.metadata order) :
    ∃ snapshot, Run.runFrom step s [.flush order, .flushWrite none] = some
      { s with
        cache := { s.cache with snapshotGeneration := 0, metadataDirty := false }
        taken := s.taken + 1
        succeeded := snapshot :: s.succeeded } := by
  have hnext : addU64 s.cache.snapshotGeneration 1 = 0 := by
    rw [hgen]
    decide
  refine ⟨⟨0, recordsOf s.cache.metadata order, s.taken + 1⟩, ?_⟩
  simp [Run.runFrom, step, CacheManager.nextSnapshot, hfree, horder, hnext, MetadataWriter.write]

/-- After `2 ^ 64 - 1` snapshots a flush reports success, clears the flag and leaves the file
without the piece registered before it. -/
theorem published_file_stale_after_wrap :
    CacheManager.new ⟨none, none⟩ 10 (fun _ => 0) false = .ok emptyCache ∧
      ∃ actions t, Run.runFrom step (start emptyCache []) actions = some t ∧ t.Settled ∧
        ¬ Describes t.writer.file t.cache.metadata := by
  refine ⟨rfl, ?_⟩
  have hidle : IdleAt emptyCache 1 (start emptyCache []) := ⟨rfl, rfl, rfl, rfl, rfl⟩
  obtain ⟨s, hflushes, hs⟩ := IdleAt.flushes (by decide) rfl (2 ^ 64 - 2) hidle (by decide)
  obtain ⟨hcache, hwriter, hwaiting, hunmarked, hflushing⟩ := hs
  -- a piece is registered, then flushed
  have hcall : s.step (.call (.addPiece 5 .none sampleKey 3)) =
      some { s with cache := (s.cache.addPiece 5 .none sampleKey 3).1 } := by
    simp [step, hflushing, CacheOp.isStartup, CacheManager.step]
  have horder : IterationOrder (s.cache.addPiece 5 .none sampleKey 3).1.metadata [sampleKey] := by
    rw [hcache]
    decide
  obtain ⟨snapshot, hlost⟩ := flush_lost
    { s with cache := (s.cache.addPiece 5 .none sampleKey 3).1 } [sampleKey]
    (by rw [hcache]; rfl) hflushing horder
  refine ⟨_, _, Run.runFrom_append.mpr ⟨s, hflushes, Run.runFrom_cons_eq_some.mpr
    ⟨_, hcall, hlost⟩⟩, ⟨rfl, hwaiting, hunmarked, hflushing⟩, ?_⟩
  intro hdescribes
  have hget : (s.cache.addPiece 5 .none sampleKey 3).1.metadata.get sampleKey =
      some ⟨5, 3, 0⟩ := by
    rw [hcache]
    decide
  have hmem := (hdescribes.2 sampleKey ⟨5, 3, 0⟩).mpr hget
  simp [hwriter] at hmem

end MetadataSystem

end TorrentFs.Cache
