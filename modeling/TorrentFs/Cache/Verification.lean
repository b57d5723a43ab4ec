import TorrentFs.Lib.Bytes
import TorrentFs.Lib.Run
import TorrentFs.Cache.Scan

/-!
# The background verifier

After startup a thread checks the content of every unverified piece. It lists the keys once;
then, for each key, it resolves the path under the cache lock, reads and checks the file
without it, and takes the lock again to mark the piece verified or to delete it. The engine
registers, evicts and drops pieces and libtorrent writes blocks in between.

A step of the system is one critical section, one content check or one block write, so a run is
an interleaving. `TorrentData` holds what the check compares with: the hash of a piece stands
for its content.
-/

namespace TorrentFs.Cache

open Text Word FinMap Finset

def splitPieceKey (key : Str) : Option (Str × ℤ) :=
  match key.splitOn ':' with
  | infoHash :: kind :: index :: _ =>
    if kind = "piece".toList then (parseSigned i32Max index).map fun i => (infoHash, i) else none
  | _ => none

/-- The torrents the verifier knows and the content of their pieces. -/
structure TorrentData where
  -- the torrent is in the database and has a piece of this index
  known : Str → ℤ → Bool
  content : Str → List UInt8

inductive VerifyOutcome
  | verified
  | purged
  | skipped
deriving DecidableEq

/-- `verify_single_piece`, for a piece the torrent has. `sparse` tells whether fewer blocks are
allocated to the file than its length needs. -/
def verifySinglePiece (expected : List UInt8) (file : Option (List UInt8)) (sparse : Bool) :
    VerifyOutcome :=
  match file with
  | none => .purged
  | some bytes =>
    if bytes.length ≠ expected.length then .purged
    else if sparse && bytes.length ≠ 0 then .purged
    else if bytes = expected then .verified
    else .purged

lemma file_of_verified {expected : List UInt8} {file : Option (List UInt8)} {sparse : Bool}
    (h : verifySinglePiece expected file sparse = .verified) : file = some expected := by
  unfold verifySinglePiece at h
  cases file with
  | none => cases h
  | some bytes =>
    dsimp only at h
    split at h
    · cases h
    · split at h
      · cases h
      · split at h
        · next heq => rw [heq]
        · cases h

/-- Where the verifier is in its list. -/
inductive VerifierPhase
  | start
  -- keys still to be looked at
  | pending (keys : List Str)
  -- the path of `key` is known and its file not yet read
  | resolved (key : Str) (rest : List Str)
  -- `key` was checked and the outcome not yet applied
  | checked (key : Str) (outcome : VerifyOutcome) (rest : List Str)
deriving DecidableEq

/-- The cache and the verifier. -/
structure VerifierSystem where
  cache : CacheManager
  phase : VerifierPhase

/-- A step of the verifier, of the engine or of libtorrent. -/
inductive VerifierAction
  | list (keys : List Str)
  | resolve
  | check (sparse : Bool)
  | applyOutcome (f : Faults)
  | recordAccess (now : ℕ) (key : Str)
  | addPiece (now : ℕ) (f : Faults) (key : Str) (size : ℕ)
  | registerIncompletePiece (now : ℕ) (f : Faults) (key : Str) (size : ℕ)
  | evictLru (f : Faults)
  | dropInfohashState (infoHash : Str)
  | writeBlock (key : Str) (offset : ℕ) (data : List UInt8) (markerFails : Bool)

def Disk.writeBlock (d : Disk) (key : Str) (offset : ℕ) (data : List UInt8)
    (markerFails : Bool) : Disk where
  file := Function.update d.file key (some (Bytes.writeAt ((d.file key).getD []) offset data))
  marker := if markerFails then d.marker else Function.update d.marker key true

namespace VerifierSystem

/-- The verifier's next move on a listed key: it skips a key it cannot split, one of an unknown
torrent and one without a path. -/
def resolveKey (data : TorrentData) (key : Str) (rest : List Str) : VerifierPhase :=
  match splitPieceKey key with
  | none => .pending rest
  | some (infoHash, index) =>
    if data.known infoHash index && isValidPieceKey key then .resolved key rest
    else .pending rest

def step (data : TorrentData) (s : VerifierSystem) : VerifierAction → Option VerifierSystem
  | .list keys =>
    -- the map has no order of its own, so the list may come in any order
    if s.phase = .start ∧ keys.Nodup ∧ keys.toFinset = s.cache.unverifiedPieces then
      some { s with phase := .pending keys }
    else none
  | .resolve =>
    match s.phase with
    | .pending (key :: rest) => some { s with phase := resolveKey data key rest }
    | _ => none
  | .check sparse =>
    match s.phase with
    | .resolved key rest =>
      let outcome := verifySinglePiece (data.content key) (s.cache.cacheDir.file key) sparse
      some { s with phase := .checked key outcome rest }
    | _ => none
  | .applyOutcome f =>
    match s.phase with
    | .checked key .verified rest => some ⟨s.cache.markVerified key, .pending rest⟩
    | .checked key .purged rest => some ⟨(s.cache.deletePiece f key).1, .pending rest⟩
    | .checked _ .skipped rest => some { s with phase := .pending rest }
    | _ => none
  | .recordAccess now key => some { s with cache := (s.cache.recordAccess now key).1 }
  | .addPiece now f key size => some { s with cache := (s.cache.addPiece now f key size).1 }
  | .registerIncompletePiece now f key size =>
    some { s with cache := (s.cache.registerIncompletePiece now f key size).1 }
  | .evictLru f => some { s with cache := (s.cache.evictLru f).1 }
  | .dropInfohashState infoHash => some { s with cache := s.cache.dropInfohashState infoHash }
  | .writeBlock key offset bytes markerFails =>
    -- libtorrent does not write to a piece it has
    if key ∈ s.cache.verifiedPieceKeys then none
    else some { s with cache := { s.cache with
      cacheDir := s.cache.cacheDir.writeBlock key offset bytes markerFails } }

end VerifierSystem

namespace CacheManager

/-- A key of the verified set is registered, not tagged incomplete, and its file is the whole
piece. -/
def VerifiedSound (data : TorrentData) (c : CacheManager) : Prop :=
  ∀ key ∈ c.verifiedPieceKeys, key ∈ c.metadata.keys ∧ key ∉ c.incompletePieceKeys ∧
    c.cacheDir.file key = some (data.content key)

/-- What `c'` registers has the file it has in `c`. -/
def SameFiles (c c' : CacheManager) : Prop :=
  ∀ key ∈ c'.metadata.keys, c'.cacheDir.file key = c.cacheDir.file key

lemma kept_sameFiles (c : CacheManager) : Kept (SameFiles c) := by
  refine ⟨fun {c₁ c₂ f key} h hrm k hk => ?_, id, id, id⟩
  have hremoved := removed_of_removePiece hrm
  rw [hremoved.metadata, keys_erase] at hk
  rw [hremoved.file k (ne_of_mem_erase hk)]
  exact h k (mem_of_mem_erase hk)

section Sound

variable {data : TorrentData} {c : CacheManager}

variable {f : Faults} {key : Str}

lemma VerifiedSound.removePiece {c' : CacheManager} (h : VerifiedSound data c)
    (hrm : c.removePiece f key = .ok c') : VerifiedSound data c' := by
  have hremoved := removed_of_removePiece hrm
  intro k hk
  rw [hremoved.verified] at hk
  have hne := ne_of_mem_erase hk
  obtain ⟨hreg, hinc, hfile⟩ := h k (mem_of_mem_erase hk)
  refine ⟨?_, ?_, ?_⟩
  · rw [hremoved.metadata, keys_erase]
    exact Finset.mem_erase.mpr ⟨hne, hreg⟩
  · rw [hremoved.incomplete]
    exact fun hmem => hinc (mem_of_mem_erase hmem)
  · rw [hremoved.file k hne, hfile]

lemma kept_verifiedSound : Kept (VerifiedSound data) := ⟨fun h => h.removePiece, id, id, id⟩

lemma keys_recordAccess (c : CacheManager) (now : ℕ) (key : Str) :
    (c.recordAccess now key).1.metadata.keys = c.metadata.keys := by
  unfold CacheManager.recordAccess
  cases hget : c.metadata.get key with
  | none => rfl
  | some info => exact insert_eq_of_mem (mem_keys_of_get hget)

lemma VerifiedSound.recordAccess (h : VerifiedSound data c) (now : ℕ) (key : Str) :
    VerifiedSound data (c.recordAccess now key).1 := by
  intro k hk
  rw [keys_recordAccess]
  unfold CacheManager.recordAccess at hk ⊢
  cases hget : c.metadata.get key with
  | none | some =>
    rw [hget] at hk
    exact h k hk

lemma file_setComplete (c : CacheManager) (now : ℕ) (f : Faults) (key : Str) (size : ℕ) :
    ((c.upsertRecord now key size).setComplete f key).cacheDir.file = c.cacheDir.file := by
  unfold setComplete Disk.removeMarker upsertRecord
  split
  · split <;> rfl
  · rfl

lemma sameFiles_addPiece (c : CacheManager) (now : ℕ) (f : Faults) (key : Str) (size : ℕ) :
    SameFiles c (c.addPiece now f key size).1 :=
  (kept_sameFiles c).addPiece (fun _ _ => rfl) fun _ k _ => congrFun (file_setComplete ..) k

lemma sameFiles_registerIncompletePiece (c : CacheManager) (now : ℕ) (f : Faults) (key : Str)
    (size : ℕ) : SameFiles c (c.registerIncompletePiece now f key size).1 :=
  (kept_sameFiles c).registerIncompletePiece (fun _ _ => rfl) fun _ _ _ _ _ => rfl

lemma VerifiedSound.addPiece (h : VerifiedSound data c) {now : ℕ}
    {size : ℕ} (hcomplete : c.cacheDir.file key = some (data.content key)) :
    VerifiedSound data (c.addPiece now f key size).1 := by
  refine kept_verifiedSound.addPiece h fun _ k hk => ?_
  rw [file_setComplete]
  rcases Finset.mem_insert.mp hk with rfl | hk
  · exact ⟨Finset.mem_insert_self _ _, Finset.notMem_erase _ _, hcomplete⟩
  · obtain ⟨hreg, hinc, hk⟩ := h k hk
    exact ⟨Finset.mem_insert_of_mem hreg, fun hmem => hinc (Finset.mem_of_mem_erase hmem), hk⟩

lemma VerifiedSound.registerIncompletePiece (h : VerifiedSound data c) (now : ℕ) (f : Faults)
    (key : Str) (size : ℕ) : VerifiedSound data (c.registerIncompletePiece now f key size).1 := by
  refine kept_verifiedSound.registerIncompletePiece h fun _ _ _ k hk => ?_
  obtain ⟨hreg, hinc, hfile⟩ := h k (Finset.mem_of_mem_erase hk)
  refine ⟨Finset.mem_insert_of_mem hreg, fun hmem => ?_, hfile⟩
  exact (Finset.mem_insert.mp hmem).elim (Finset.ne_of_mem_erase hk) hinc

lemma VerifiedSound.dropInfohashState (h : VerifiedSound data c) (infoHash : Str) :
    VerifiedSound data (c.dropInfohashState infoHash) := by
  intro k hk
  obtain ⟨hk, hof⟩ := Finset.mem_filter.mp hk
  obtain ⟨hreg, hinc, hfile⟩ := h k hk
  refine ⟨?_, ?_, hfile⟩
  · show k ∈ c.metadata.keys.filter _
    simp [hreg, hof]
  · exact fun hmem => hinc (mem_of_mem_filter k hmem)

lemma VerifiedSound.markVerified (h : VerifiedSound data c)
    (hreg : key ∈ c.metadata.keys) (hfile : c.cacheDir.file key = some (data.content key)) :
    VerifiedSound data (c.markVerified key) := by
  intro k hk
  rcases Finset.mem_insert.mp hk with rfl | hk
  · exact ⟨hreg, notMem_erase _ _, hfile⟩
  · obtain ⟨hreg, hinc, hfile⟩ := h k hk
    exact ⟨hreg, fun hmem => hinc (mem_of_mem_erase hmem), hfile⟩

end Sound

end CacheManager

namespace VerifierSystem

open CacheManager

variable {data : TorrentData}

/-- The engine registers a piece as complete only when its file is. -/
def Completes (data : TorrentData) (s : VerifierSystem) : VerifierAction → Prop
  | .addPiece _ _ key _ => s.cache.cacheDir.file key = some (data.content key)
  | _ => True

/-- The step does not interfere with the piece the verifier works on: a piece that passes the
check is registered then, and between the check and the mark it is neither evicted nor dropped
and no block is written to it. -/
def Undisturbed (data : TorrentData) (s : VerifierSystem) (a : VerifierAction) : Prop :=
  match s.phase, a with
  | .resolved key _, .check sparse =>
    verifySinglePiece (data.content key) (s.cache.cacheDir.file key) sparse = .verified →
      key ∈ s.cache.metadata.keys
  | .checked key .verified _, .addPiece now f k size =>
    key ∈ (s.cache.addPiece now f k size).1.metadata.keys
  | .checked key .verified _, .registerIncompletePiece now f k size =>
    key ∈ (s.cache.registerIncompletePiece now f k size).1.metadata.keys
  | .checked key .verified _, .evictLru f => key ∈ (s.cache.evictLru f).1.metadata.keys
  | .checked key .verified _, .dropInfohashState infoHash => ofInfohash infoHash key = false
  | .checked key .verified _, .writeBlock k _ _ _ => k ≠ key
  | _, _ => True

/-- The verified set is sound, and the piece about to be marked is still the one checked. -/
structure Sound (data : TorrentData) (s : VerifierSystem) : Prop where
  verified : VerifiedSound data s.cache
  window : ∀ key rest, s.phase = .checked key .verified rest →
    key ∈ s.cache.metadata.keys ∧ s.cache.cacheDir.file key = some (data.content key)

lemma resolveKey_cases (data : TorrentData) (key : Str) (rest : List Str) :
    resolveKey data key rest = .pending rest ∨ resolveKey data key rest = .resolved key rest := by
  unfold resolveKey
  split
  · exact .inl rfl
  · split
    · exact .inr rfl
    · exact .inl rfl

lemma Sound.withCache {s : VerifierSystem} (h : Sound data s) {c : CacheManager}
    (hsound : VerifiedSound data c)
    (hkeep : ∀ key rest, s.phase = .checked key .verified rest →
      key ∈ c.metadata.keys ∧ c.cacheDir.file key = s.cache.cacheDir.file key) :
    Sound data { s with cache := c } where
  verified := hsound
  window := by
    intro key rest hphase
    obtain ⟨hreg, hfile⟩ := hkeep key rest hphase
    exact ⟨hreg, hfile.trans (h.window key rest hphase).2⟩

lemma Sound.step {s t : VerifierSystem} {a : VerifierAction} (h : Sound data s)
    (hcomplete : s.Completes data a) (ha : Undisturbed data s a)
    (hstep : step data s a = some t) : Sound data t := by
  cases a with
  | list keys =>
    simp only [VerifierSystem.step] at hstep
    split at hstep
    · cases hstep
      exact ⟨h.verified, fun key rest hphase => by cases hphase⟩
    · cases hstep
  | resolve =>
    simp only [VerifierSystem.step] at hstep
    split at hstep
    · cases hstep
      refine ⟨h.verified, fun key rest hphase => ?_⟩
      -- resolving never ends in the window
      rcases resolveKey_cases data _ _ with heq | heq <;> cases heq.symm.trans hphase
    · cases hstep
  | check sparse =>
    simp only [VerifierSystem.step] at hstep
    split at hstep
    · next key rest hphase =>
      cases hstep
      refine ⟨h.verified, fun k r hchecked => ?_⟩
      obtain ⟨rfl, hverified, rfl⟩ : key = k ∧ verifySinglePiece (data.content key)
          (s.cache.cacheDir.file key) sparse = .verified ∧ rest = r := by
        simpa using hchecked
      simp only [Undisturbed, hphase] at ha
      exact ⟨ha hverified, file_of_verified hverified⟩
    · cases hstep
  | applyOutcome f =>
    simp only [VerifierSystem.step] at hstep
    split at hstep
    · next key rest hphase =>
      cases hstep
      obtain ⟨hreg, hfile⟩ := h.window key rest hphase
      exact ⟨h.verified.markVerified hreg hfile, fun k r hpend => by cases hpend⟩
    · next key rest hphase =>
      cases hstep
      exact ⟨kept_verifiedSound.deletePiece h.verified f key, fun k r hpend => by cases hpend⟩
    · cases hstep
      exact ⟨h.verified, fun k r hpend => by cases hpend⟩
    · cases hstep
  | recordAccess now key =>
    cases hstep
    refine h.withCache (h.verified.recordAccess now key) fun k rest hphase => ⟨?_, ?_⟩
    · rw [keys_recordAccess]
      exact (h.window k rest hphase).1
    · unfold CacheManager.recordAccess
      cases s.cache.metadata.get key <;> rfl
  | addPiece now f key size =>
    cases hstep
    refine h.withCache (h.verified.addPiece hcomplete) fun k rest hphase => ?_
    simp only [Undisturbed, hphase] at ha
    exact ⟨ha, sameFiles_addPiece _ _ _ _ _ _ ha⟩
  | registerIncompletePiece now f key size =>
    cases hstep
    refine h.withCache (h.verified.registerIncompletePiece now f key size)
      fun k rest hphase => ?_
    simp only [Undisturbed, hphase] at ha
    exact ⟨ha, sameFiles_registerIncompletePiece _ _ _ _ _ _ ha⟩
  | evictLru f =>
    cases hstep
    refine h.withCache (kept_verifiedSound.evictLru h.verified f) fun k rest hphase => ?_
    simp only [Undisturbed, hphase] at ha
    exact ⟨ha, (kept_sameFiles _).evictLru (fun _ _ => rfl) f k ha⟩
  | dropInfohashState infoHash =>
    cases hstep
    refine h.withCache (h.verified.dropInfohashState infoHash) fun k rest hphase => ⟨?_, rfl⟩
    simp only [Undisturbed, hphase] at ha
    show k ∈ s.cache.metadata.keys.filter _
    simp [ha, (h.window k rest hphase).1]
  | writeBlock key offset bytes markerFails =>
    simp only [VerifierSystem.step] at hstep
    split at hstep
    · cases hstep
    · next hunverified =>
      cases hstep
      refine h.withCache ?_ fun k rest hphase => ⟨(h.window k rest hphase).1, ?_⟩
      · intro k hk
        obtain ⟨hreg, hinc, hfile⟩ := h.verified k hk
        refine ⟨hreg, hinc, ?_⟩
        have hne : k ≠ key := fun heq => hunverified (heq ▸ hk)
        simpa [Disk.writeBlock, hne] using hfile
      · simp only [Undisturbed, hphase] at ha
        simp [Disk.writeBlock, ha.symm]

/-- From any startup, every run of undisturbed steps keeps the verified set sound. -/
theorem verifiedSound_of_undisturbed_run (data : TorrentData) (content : CacheContent)
    (maxCacheSize : ℕ) (clock : Str → ℕ) (saveFails : Bool) (c₀ : CacheManager)
    (s : VerifierSystem) (as : List VerifierAction)
    (hnew : CacheManager.new content maxCacheSize clock saveFails = .ok c₀)
    (halong : Run.Along (step data) (fun s a => s.Completes data a ∧ Undisturbed data s a)
      ⟨c₀, .start⟩ as)
    (hrun : Run.runFrom (step data) ⟨c₀, .start⟩ as = some s) : VerifiedSound data s.cache := by
  have hstart : Sound data ⟨c₀, .start⟩ := by
    refine ⟨fun key hkey => ?_, fun key rest hphase => by cases hphase⟩
    rw [verified_new hnew] at hkey
    simp at hkey
  exact (Run.invariant_of_run_along (fun _ _ _ hinv ha hs => Sound.step hinv ha.1 ha.2 hs)
    hstart halong hrun).verified

def sampleData : TorrentData := ⟨fun _ _ => true, fun _ => [7]⟩

def sampleContent : CacheContent :=
  ⟨some [.dir (some sampleHash) [.file (some sampleKey) (some [7])]], none⟩

theorem verifiedSound_of_quiet_verification :
    ∃ c₀ s, CacheManager.new sampleContent 10 (fun _ => 0) false = .ok c₀ ∧
      Run.runFrom (step sampleData) ⟨c₀, .start⟩
        [.list [sampleKey], .resolve, .check false, .evictLru .none, .applyOutcome .none] = some s ∧
      sampleKey ∈ s.cache.verifiedPieceKeys ∧ VerifiedSound sampleData s.cache := by
  refine ⟨_, _, rfl, rfl, by decide, ?_⟩
  refine verifiedSound_of_undisturbed_run sampleData sampleContent 10 (fun _ => 0) false _ _
    [.list [sampleKey], .resolve, .check false, .evictLru .none, .applyOutcome .none] rfl ?_ rfl
  refine ⟨⟨trivial, trivial⟩, fun s hs => ?_⟩
  cases hs
  refine ⟨⟨trivial, trivial⟩, fun s hs => ?_⟩
  cases hs
  refine ⟨⟨trivial, fun _ => by decide⟩, fun s hs => ?_⟩
  cases hs
  -- the cache is within its budget, so this pass evicts nothing
  refine ⟨⟨trivial, show sampleKey ∈ (CacheManager.evictLru _ .none).1.metadata.keys by decide⟩,
    fun s hs => ?_⟩
  cases hs
  exact ⟨⟨trivial, trivial⟩, fun _ _ => trivial⟩

/-- With a budget of no bytes, an eviction between the check and the mark removes the piece and
its file; the mark then puts the key of the missing piece in the verified set. -/
theorem verified_after_eviction :
    ∃ c₀ s, CacheManager.new sampleContent 0 (fun _ => 0) false = .ok c₀ ∧
      Run.runFrom (step sampleData) ⟨c₀, .start⟩
        [.list [sampleKey], .resolve, .check false, .evictLru .none, .applyOutcome .none] = some s ∧
      sampleKey ∈ s.cache.verifiedPieceKeys ∧ sampleKey ∉ s.cache.metadata.keys ∧
      s.cache.cacheDir.file sampleKey = none :=
  ⟨_, _, rfl, rfl, by decide, by decide, by decide⟩

end VerifierSystem

end TorrentFs.Cache
