import TorrentFs.Cache.Manager

/-!
# The startup index

`CacheManager::new` loads the metadata file, walks the directory `pieces/` and registers every
piece file it finds, then drops the loaded entries the walk did not meet. The walk is recursive
and follows the directory order of the system, so it is a function of an arbitrary tree. The
removal of scratch files and the migration of files from an old layout run before the walk and
only rearrange the tree, which is arbitrary here.
-/

namespace TorrentFs.Cache

open Text Word List

/-- A directory entry. A name that is not UTF-8 is `none`. -/
inductive DirEntry
  -- a regular file; `none` when reading its metadata fails
  | file (name : Option Str) (content : Option (List UInt8))
  | dir (name : Option Str) (entries : List DirEntry)
  -- a directory that cannot be listed
  | unreadable (name : Option Str)
  -- neither a file nor a directory; a dangling link does not resolve
  | other (name : Option Str) (resolves : Bool)

def DirEntry.name : DirEntry → Option Str
  | .file n _ => n
  | .dir n _ => n
  | .unreadable n => n
  | .other n _ => n

def DirEntry.resolves : DirEntry → Bool
  | .other _ r => r
  | _ => true

/-- What the startup finds: the entries of `pieces/` and the lines of the metadata file, each
after lossy UTF-8 decoding, when these exist. -/
structure CacheContent where
  pieces : Option (List DirEntry)
  metadataLines : Option (List Str)

def entriesBelow (root : List DirEntry) (h : Str) : List DirEntry :=
  root.flatMap fun e => match e with
    | .dir (some n) es => if n = h then es else []
    | _ => []

def markerExists (root : List DirEntry) (key : Str) : Bool :=
  isValidPieceKey key &&
    (entriesBelow root (pieceKeyInfoHash key)).any fun e =>
      e.name == some (key ++ incompleteSuffix) && e.resolves

def pieceFileContent (root : List DirEntry) (key : Str) : Option (List UInt8) :=
  (entriesBelow root (pieceKeyInfoHash key)).findSome? fun e => match e with
    | .file (some n) content => if n = key then content else none
    | _ => none

inductive StartupError
  | readDirFailed
  | fileMetadataFailed (key : Str)
  | saveFailed
deriving DecidableEq

def loadMetadataLine (m : FinMap Str PieceMetadata) (raw : Str) : FinMap Str PieceMetadata :=
  let line := raw.rdropWhile fun c => c = '\n' ∨ c = '\r'
  if line = [] then m
  else
    match line.splitOn '\t' with
    | [] => m
    | key :: fields =>
      match parseUnsigned u64Max (fields.headD []),
          parseUnsigned u64Max (fields.tail.headD []) with
      | some lastAccessed, some size =>
        let hitCount := (fields.tail.tail.head?.bind (parseUnsigned u64Max)).getD 0
        if isValidPieceKey key then m.insert key ⟨lastAccessed, size, hitCount⟩ else m
      | _, _ => m

def loadMetadataFile (lines : List Str) : FinMap Str PieceMetadata :=
  lines.foldl loadMetadataLine .empty

namespace CacheManager

abbrev ScanState := CacheManager × Finset Str

/-- Whether the walk registers a file: the tests of `scan_pieces_subdirectory` on the name of
the file and of its directory, before it reads the file. -/
def registersFile (parent : Option Str) (key : Str) : Bool :=
  !(key == cacheMetadataFile || isMetadataScratchName key) &&
    !incompleteSuffix.isSuffixOf key && isValidPieceKey key &&
    parent == some (pieceKeyInfoHash key)

def registerScanned (root : List DirEntry) (clock : Str → ℕ) (s : ScanState) (key : Str)
    (size : ℕ) : ScanState :=
  let c := s.1
  ({ c with
      incompletePieceKeys := if markerExists root key then insert key c.incompletePieceKeys
        else c.incompletePieceKeys
      metadata := c.metadata.insert key
        { lastAccessed := ((c.metadata.get key).map PieceMetadata.lastAccessed).getD (clock key)
          size := size
          hitCount := ((c.metadata.get key).map PieceMetadata.hitCount).getD 0 }
      currentSize := addU64 c.currentSize size }, insert key s.2)

mutual

def scanEntry (root : List DirEntry) (clock : Str → ℕ) (parent : Option Str) :
    DirEntry → ScanState → Except StartupError ScanState
  | .dir name entries, s => scanEntries root clock name entries s
  | .unreadable _, _ => .error .readDirFailed
  | .other _ _, s => .ok s
  | .file none _, s => .ok s
  | .file (some key) content, s =>
    if registersFile parent key then
      match content with
      | none => .error (.fileMetadataFailed key)
      | some bytes => .ok (registerScanned root clock s key bytes.length)
    else .ok s

def scanEntries (root : List DirEntry) (clock : Str → ℕ) (parent : Option Str) :
    List DirEntry → ScanState → Except StartupError ScanState
  | [], s => .ok s
  | e :: es, s => scanEntry root clock parent e s >>= scanEntries root clock parent es

end

def lruOf (m : FinMap Str PieceMetadata) : Finset (ℕ ×ₗ Str) :=
  m.keys.image fun key => toLex (m.weight PieceMetadata.lastAccessed key, key)

/-- The end of `scan_cache_directory`: drop what the walk did not meet and rebuild the access
order. -/
def reconcile (s : ScanState) : CacheManager :=
  let metadata := s.1.metadata.filter fun key => decide (key ∈ s.2)
  { s.1 with
    metadata := metadata
    verifiedPieceKeys := s.1.verifiedPieceKeys.filter fun key => key ∈ s.2
    incompletePieceKeys := s.1.incompletePieceKeys.filter fun key => key ∈ s.2
    lru := lruOf metadata }

def diskOf (root : List DirEntry) : Disk where
  file := pieceFileContent root
  marker := markerExists root

/-- The manager before the startup index: nothing registered but the loaded lines, the
accounted size reset. -/
def fresh (content : CacheContent) (maxCacheSize : ℕ) : CacheManager where
  cacheDir := diskOf (content.pieces.getD [])
  metadata := loadMetadataFile (content.metadataLines.getD [])
  maxCacheSize := maxCacheSize
  currentSize := 0
  missCount := 0
  hitCount := 0
  evictionCount := 0
  incompletePieceKeys := ∅
  verifiedPieceKeys := ∅
  lru := ∅
  snapshotGeneration := 0
  metadataDirty := false

def piecesDirName : Str := "pieces".toList

/-- `CacheManager::new` with its `rebuild_index`. `saveFails` tells whether the write of the
metadata file at the end fails. -/
def new (content : CacheContent) (maxCacheSize : ℕ) (clock : Str → ℕ) (saveFails : Bool) :
    Except StartupError CacheManager :=
  let root := content.pieces.getD []
  match scanEntries root clock (some piecesDirName) root (fresh content maxCacheSize, ∅) with
  | .error e => .error e
  | .ok s =>
    if saveFails then .error .saveFailed
    else .ok { reconcile s with snapshotGeneration := 1, metadataDirty := false }

/-! ### What a walk registers -/

mutual

/-- The piece files below an entry that the walk registers, with their sizes, in the order it
meets them. -/
def pieceFilesIn (parent : Option Str) : DirEntry → List (Str × ℕ)
  | .dir name entries => pieceFiles name entries
  | .file (some key) (some bytes) =>
    if registersFile parent key then [(key, bytes.length)] else []
  | _ => []

def pieceFiles (parent : Option Str) : List DirEntry → List (Str × ℕ)
  | [] => []
  | e :: es => pieceFilesIn parent e ++ pieceFiles parent es

end

mutual

lemma scanEntry_eq_ok {root : List DirEntry} {clock : Str → ℕ} (parent : Option Str) :
    ∀ (e : DirEntry) {s t : ScanState}, scanEntry root clock parent e s = .ok t →
      t = (pieceFilesIn parent e).foldl (fun s p => registerScanned root clock s p.1 p.2) s
  | .dir name entries, s, t, h => by
      rw [scanEntry] at h
      rw [pieceFilesIn]
      exact scanEntries_eq_ok name entries h
  | .unreadable _, s, t, h => by simp [scanEntry] at h
  | .other _ _, s, t, h => by simpa [scanEntry, pieceFilesIn, eq_comm] using h
  | .file none _, s, t, h => by simpa [scanEntry, pieceFilesIn, eq_comm] using h
  | .file (some key) none, s, t, h => by
      by_cases hreg : registersFile parent key = true
      · simp [scanEntry, hreg] at h
      · simpa [scanEntry, hreg, pieceFilesIn, eq_comm] using h
  | .file (some key) (some bytes), s, t, h => by
      by_cases hreg : registersFile parent key = true <;>
        simpa [scanEntry, hreg, pieceFilesIn, eq_comm] using h

lemma scanEntries_eq_ok {root : List DirEntry} {clock : Str → ℕ} (parent : Option Str) :
    ∀ (es : List DirEntry) {s t : ScanState}, scanEntries root clock parent es s = .ok t →
      t = (pieceFiles parent es).foldl (fun s p => registerScanned root clock s p.1 p.2) s
  | [], s, t, h => by simpa [scanEntries, pieceFiles, eq_comm] using h
  | e :: es, s, t, h => by
      rw [scanEntries] at h
      cases hmid : scanEntry root clock parent e s with
      | error err => simp [hmid, bind, Except.bind] at h
      | ok mid =>
        rw [hmid] at h
        have hrest : scanEntries root clock parent es mid = .ok t := h
        rw [pieceFiles, foldl_append, ← scanEntry_eq_ok parent e hmid]
        exact scanEntries_eq_ok parent es hrest

end

mutual

lemma valid_of_mem_pieceFilesIn (parent : Option Str) :
    ∀ (e : DirEntry) {p : Str × ℕ}, p ∈ pieceFilesIn parent e → isValidPieceKey p.1 = true
  | .dir name entries, p, h => by
      rw [pieceFilesIn] at h
      exact valid_of_mem_pieceFiles name entries h
  | .unreadable _, p, h => by simp [pieceFilesIn] at h
  | .other _ _, p, h => by simp [pieceFilesIn] at h
  | .file none _, p, h => by simp [pieceFilesIn] at h
  | .file (some _) none, p, h => by simp [pieceFilesIn] at h
  | .file (some key) (some bytes), p, h => by
      rw [pieceFilesIn] at h
      by_cases hreg : registersFile parent key = true
      · obtain rfl : p = (key, bytes.length) := by simpa [hreg] using h
        simp only [registersFile, Bool.and_eq_true] at hreg
        exact hreg.1.2
      · simp [hreg] at h

lemma valid_of_mem_pieceFiles (parent : Option Str) :
    ∀ (es : List DirEntry) {p : Str × ℕ}, p ∈ pieceFiles parent es →
      isValidPieceKey p.1 = true
  | [], p, h => by simp [pieceFiles] at h
  | e :: es, p, h => by
      rw [pieceFiles, mem_append] at h
      rcases h with h | h
      · exact valid_of_mem_pieceFilesIn parent e h
      · exact valid_of_mem_pieceFiles parent es h

end

def startupFiles (content : CacheContent) : List (Str × ℕ) :=
  pieceFiles (some piecesDirName) (content.pieces.getD [])

variable {content : CacheContent} {clock : Str → ℕ} {saveFails : Bool} {c : CacheManager}

lemma new_eq_ok {maxCacheSize : ℕ} (h : new content maxCacheSize clock saveFails = .ok c) :
    c = { reconcile ((startupFiles content).foldl
            (fun s p => registerScanned (content.pieces.getD []) clock s p.1 p.2)
            (fresh content maxCacheSize, ∅)) with
          snapshotGeneration := 1, metadataDirty := false } := by
  unfold new at h
  cases hscan : scanEntries (content.pieces.getD []) clock (some piecesDirName)
      (content.pieces.getD []) (fresh content maxCacheSize, ∅) with
  | error e => simp [hscan] at h
  | ok s =>
    have hs := scanEntries_eq_ok _ _ hscan
    by_cases hsave : saveFails = true
    · simp [hscan, hsave] at h
    · simp only [hscan, hsave, Bool.false_eq_true, if_false, Except.ok.injEq] at h
      rw [← h, hs]
      rfl

lemma verified_new {maxCacheSize : ℕ} (h : new content maxCacheSize clock saveFails = .ok c) :
    c.verifiedPieceKeys = ∅ := by
  -- the walk starts from an empty set and never adds to it
  have hwalk : ∀ (files : List (Str × ℕ)) (s : ScanState), s.1.verifiedPieceKeys = ∅ →
      (files.foldl (fun s p => registerScanned (content.pieces.getD []) clock s p.1 p.2)
        s).1.verifiedPieceKeys = ∅ := by
    intro files
    induction files with
    | nil => exact fun s hs => hs
    | cons p files ih => exact fun s hs => ih _ hs
  rw [new_eq_ok h]
  show Finset.filter _ _ = ∅
  rw [hwalk _ _ rfl, Finset.filter_empty]

lemma mem_registerScanned (root : List DirEntry) (clock : Str → ℕ) (s : ScanState)
    (met : Str) (size : ℕ) (key : Str) : let t := registerScanned root clock s met size
    (key ∈ t.2 ↔ key = met ∨ key ∈ s.2) ∧
      (key ∈ t.1.metadata.keys ↔ key = met ∨ key ∈ s.1.metadata.keys) ∧
      (key ∈ t.1.incompletePieceKeys ↔
        key = met ∧ markerExists root key = true ∨ key ∈ s.1.incompletePieceKeys) := by
  refine ⟨Finset.mem_insert, Finset.mem_insert, ?_⟩
  show key ∈ (if markerExists root met = true then insert met s.1.incompletePieceKeys
    else s.1.incompletePieceKeys) ↔ _
  split
  · next hmarker =>
    rw [Finset.mem_insert]
    constructor
    · rintro (rfl | hmem)
      · exact .inl ⟨rfl, hmarker⟩
      · exact .inr hmem
    · rintro (⟨rfl, -⟩ | hmem)
      · exact .inl rfl
      · exact .inr hmem
  · next hmarker =>
    refine ⟨.inr, ?_⟩
    rintro (⟨rfl, hkey⟩ | hmem)
    · exact absurd hkey hmarker
    · exact hmem

lemma mem_foldl_registerScanned (root : List DirEntry) (clock : Str → ℕ)
    (files : List (Str × ℕ)) (s t : ScanState) (key : Str)
    (ht : files.foldl (fun s p => registerScanned root clock s p.1 p.2) s = t) :
    (key ∈ t.2 ↔ key ∈ files.map Prod.fst ∨ key ∈ s.2) ∧
      (key ∈ t.1.metadata.keys ↔ key ∈ files.map Prod.fst ∨ key ∈ s.1.metadata.keys) ∧
      (key ∈ t.1.incompletePieceKeys ↔ key ∈ files.map Prod.fst ∧ markerExists root key = true ∨
          key ∈ s.1.incompletePieceKeys) := by
  induction files generalizing s with
  | nil =>
    subst ht
    simp
  | cons p files ih =>
    obtain ⟨hmet, hkeys, hincomplete⟩ := ih (registerScanned root clock s p.1 p.2) ht
    obtain ⟨hmet₁, hkeys₁, hincomplete₁⟩ := mem_registerScanned root clock s p.1 p.2 key
    rw [hmet, hkeys, hincomplete, hmet₁, hkeys₁, hincomplete₁, map_cons, mem_cons,
      or_and_right]
    exact ⟨or_left_comm.trans or_assoc.symm, or_left_comm.trans or_assoc.symm,
      or_left_comm.trans or_assoc.symm⟩

lemma mem_keys_new {maxCacheSize : ℕ} (h : new content maxCacheSize clock saveFails = .ok c)
    (key : Str) : key ∈ c.metadata.keys ↔ key ∈ (startupFiles content).map Prod.fst := by
  rw [new_eq_ok h]
  generalize ht : (startupFiles content).foldl _ _ = t
  obtain ⟨hmet, hkeys, -⟩ := mem_foldl_registerScanned _ _ _ _ t key ht
  simp only [reconcile, FinMap.keys_filter, Finset.mem_filter, decide_eq_true_eq, hmet, hkeys,
    Finset.notMem_empty, or_false]
  exact and_iff_right_of_imp .inl

lemma mem_incomplete_new {maxCacheSize : ℕ} (h : new content maxCacheSize clock saveFails = .ok c)
    (key : Str) : key ∈ c.incompletePieceKeys ↔
      key ∈ c.metadata.keys ∧ markerExists (content.pieces.getD []) key = true := by
  rw [mem_keys_new h, new_eq_ok h]
  generalize ht : (startupFiles content).foldl _ _ = t
  obtain ⟨hmet, -, hincomplete⟩ := mem_foldl_registerScanned _ _ _ _ t key ht
  simp only [reconcile, Finset.mem_filter, hmet, hincomplete, fresh, Finset.notMem_empty,
    or_false]
  exact and_iff_left_of_imp And.left

end CacheManager

end TorrentFs.Cache
