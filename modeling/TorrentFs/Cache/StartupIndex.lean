import TorrentFs.Cache.MetadataFile

/-!
# What the startup index registers

The startup merges two inputs it does not control: the tree below `pieces/` and the bytes of the
metadata file. The walk compares the name of a file with the name of the directory right above it
only, so a directory named like an info hash is taken for one of the cache's own at any depth.
-/

namespace TorrentFs.Cache

open Text Word Utf8 List FinMap PieceMetadata

def lineRecord (raw : Str) : Option MetadataRecord :=
  let line := raw.rdropWhile fun c => c = '\n' ∨ c = '\r'
  if line = [] then none
  else
    match line.splitOn '\t' with
    | [] => none
    | key :: fields =>
      match parseUnsigned u64Max (fields.headD []),
          parseUnsigned u64Max (fields.tail.headD []) with
      | some lastAccessed, some size =>
        let hitCount := (fields.tail.tail.head?.bind (parseUnsigned u64Max)).getD 0
        if isValidPieceKey key then some (key, ⟨lastAccessed, size, hitCount⟩) else none
      | _, _ => none

lemma loadMetadataLine_eq (m : FinMap Str PieceMetadata) (raw : Str) :
    loadMetadataLine m raw = match lineRecord raw with
      | none => m
      | some r => m.insert r.1 r.2 := by
  unfold loadMetadataLine lineRecord
  generalize raw.rdropWhile (fun c => c = '\n' ∨ c = '\r') = line
  by_cases hline : line = []
  · simp only [hline, if_true]
  · simp only [hline, if_false]
    cases line.splitOn '\t' with
    | nil => rfl
    | cons key fields =>
      dsimp only
      cases parseUnsigned u64Max (fields.headD []) with
      | none => rfl
      | some lastAccessed =>
        cases parseUnsigned u64Max (fields.tail.headD []) with
        | none => rfl
        | some size =>
          dsimp only
          by_cases hvalid : isValidPieceKey key = true
          · rw [if_pos hvalid, if_pos hvalid]
          · rw [if_neg hvalid, if_neg hvalid]

lemma loadMetadataFile_eq (lines : List Str) : loadMetadataFile lines =
      (lines.filterMap lineRecord).foldl (fun m r => m.insert r.1 r.2) .empty := by
  have hfold : ∀ (lines : List Str) (m : FinMap Str PieceMetadata),
      lines.foldl loadMetadataLine m =
        (lines.filterMap lineRecord).foldl (fun m r => m.insert r.1 r.2) m := by
    intro lines
    induction lines with
    | nil => exact fun _ => rfl
    | cons raw lines ih =>
      intro m
      rw [foldl_cons, filterMap_cons, loadMetadataLine_eq, ih]
      cases lineRecord raw <;> rfl
  exact hfold lines .empty

/-- What the startup finds, from the entries of `pieces/` and the bytes of the metadata file. -/
def startupContent (pieces : Option (List DirEntry)) (metadata : Option (List UInt8)) :
    CacheContent :=
  ⟨pieces, metadata.map fun bytes => (readLines bytes).map decodeLossy⟩

def lastLine (metadata : Option (List UInt8)) (key : Str) : Option PieceMetadata :=
  FinMap.lastOf (((readLines (metadata.getD [])).map decodeLossy).filterMap lineRecord) key

def piecePathFile (root : List DirEntry) (key : Str) : Option (List UInt8) :=
  if isValidPieceKey key then pieceFileContent root key else none

/-- The startup registered the files that can be reached, with what is known of them. -/
structure IndexesReachable (pieces : Option (List DirEntry)) (metadata : Option (List UInt8))
    (c : CacheManager) : Prop where
  registered : ∀ key, key ∈ c.metadata.keys ↔ (piecePathFile (pieces.getD []) key).isSome = true
  size : ∀ key info, c.metadata.get key = some info →
    ∃ bytes, piecePathFile (pieces.getD []) key = some bytes ∧ info.size = bytes.length
  history : ∀ key info line, c.metadata.get key = some info → lastLine metadata key = some line →
    info.lastAccessed = line.lastAccessed ∧ info.hitCount = line.hitCount
  verified : c.verifiedPieceKeys = ∅
  incomplete : ∀ key, key ∈ c.incompletePieceKeys ↔
    key ∈ c.metadata.keys ∧ markerExists (pieces.getD []) key = true

def walkFiles (root : List DirEntry) : List (Str × ℕ) :=
  CacheManager.pieceFiles (some CacheManager.piecesDirName) root

mutual

/-- The files below an entry with their lengths and the names on their paths, the last name first,
in the order of the directories. -/
def filesIn (above : List (Option Str)) : DirEntry → List (List (Option Str) × ℕ)
  | .dir name entries => filesOf (name :: above) entries
  | .file name (some bytes) => [(name :: above, bytes.length)]
  | _ => []

def filesOf (above : List (Option Str)) : List DirEntry → List (List (Option Str) × ℕ)
  | [] => []
  | e :: es => filesIn above e ++ filesOf above es

end

/-- The files of the tree that are called like a piece and lie in a directory called like its hash,
at any depth. -/
def namesakes (root : List DirEntry) (key : Str) : List (List (Option Str) × ℕ) :=
  (filesOf [some CacheManager.piecesDirName] root).filter fun f =>
    isValidPieceKey key ∧ f.1.take 2 = [some key, some (pieceKeyInfoHash key)]

/-- Every piece with a namesake in the tree has its file at its own place, and the last namesake is
as long as that file. -/
def Tidy (root : List DirEntry) : Prop :=
  ∀ key path size, (namesakes root key).getLast? = some (path, size) →
    ∃ bytes, piecePathFile root key = some bytes ∧ bytes.length = size

/-! ### The record of a key -/

namespace CacheManager

lemma get_registerScanned (root : List DirEntry) (clock : Str → ℕ) (s : ScanState) (met : Str)
    (size : ℕ) (key : Str) : (registerScanned root clock s met size).1.metadata.get key =
      if key = met then some
        ⟨((s.1.metadata.get met).map lastAccessed).getD (clock met), size,
          ((s.1.metadata.get met).map PieceMetadata.hitCount).getD 0⟩
      else s.1.metadata.get key := rfl

lemma get_foldl_registerScanned (root : List DirEntry) (clock : Str → ℕ)
    (files : List (Str × ℕ)) (s : ScanState) (key : Str) :
    (files.foldl (fun s p => registerScanned root clock s p.1 p.2) s).1.metadata.get key =
      match FinMap.lastOf files key with
      | none => s.1.metadata.get key
      | some size => some
          ⟨((s.1.metadata.get key).map lastAccessed).getD (clock key), size,
            ((s.1.metadata.get key).map PieceMetadata.hitCount).getD 0⟩ := by
  induction files using List.reverseRecOn with
  | nil => rfl
  | append_singleton files p ih =>
    rw [foldl_append, foldl_cons, foldl_nil, lastOf_concat,
      get_registerScanned]
    by_cases hkey : p.1 = key
    · -- a key met again keeps the access time and the count of the first meeting
      subst hkey
      rw [if_pos rfl, if_pos rfl, ih]
      cases FinMap.lastOf files p.1 with
      | none | some => rfl
    · rw [if_neg (Ne.symm hkey), if_neg hkey, ih]

lemma get_new {pieces : Option (List DirEntry)} {metadata : Option (List UInt8)}
    {maxCacheSize : ℕ} {clock : Str → ℕ} {saveFails : Bool} {c : CacheManager}
    (h : new (startupContent pieces metadata) maxCacheSize clock saveFails = .ok c) (key : Str) :
    c.metadata.get key = (FinMap.lastOf (walkFiles (pieces.getD [])) key).map fun size =>
      ⟨((lastLine metadata key).map lastAccessed).getD (clock key), size,
        ((lastLine metadata key).map PieceMetadata.hitCount).getD 0⟩ := by
  have hloaded : (fresh (startupContent pieces metadata) maxCacheSize).metadata.get key =
      lastLine metadata key := by
    have hlines : (startupContent pieces metadata).metadataLines.getD [] =
        (readLines (metadata.getD [])).map decodeLossy := by
      cases metadata <;> rfl
    simp only [fresh, hlines, loadMetadataFile_eq, get_foldl_insert, get_empty,
      Option.or_none, lastLine]
  have hfiles : startupFiles (startupContent pieces metadata) = walkFiles (pieces.getD []) := rfl
  rw [new_eq_ok h, hfiles]
  generalize ht : (walkFiles (pieces.getD [])).foldl _ _ = t
  have hmet := (mem_foldl_registerScanned _ _ _ _ t key ht).1
  have hget : t.1.metadata.get key = _ := ht ▸ get_foldl_registerScanned _ clock _ _ key
  rw [hloaded] at hget
  simp only [reconcile, get_filter, hmet, Finset.notMem_empty, or_false, hget,
    decide_eq_true_eq, ← isSome_lastOf]
  cases FinMap.lastOf (walkFiles (pieces.getD [])) key <;> rfl

end CacheManager

/-! ### Files that can be reached -/

variable {key : Str} {root es : List DirEntry} {e : DirEntry} {bytes : List UInt8}
  {parent : Option Str} {p : Str × ℕ}

lemma not_suffix_of_validKey (h : isValidPieceKey key = true) (suffix : Str)
    {c : Char} (hc : isAsciiDigit c = false) : ¬ (suffix ++ [c]) <:+ key := by
  rintro ⟨before, hbefore⟩
  obtain ⟨infoHash, index, hkey, -, hne, hdigits, -⟩ := isValidPieceKey_iff.mp h
  have hlast := congrArg List.getLast? (hbefore.trans hkey)
  rw [← append_assoc, getLast?_concat, getLast?_append_of_ne_nil _ hne] at hlast
  have hmem : c ∈ index := mem_of_getLast? hlast.symm
  exact Bool.false_ne_true (hc.symm.trans (List.all_eq_true.mp hdigits c hmem))

lemma registersFile_of_validKey (h : isValidPieceKey key = true) :
    CacheManager.registersFile (some (pieceKeyInfoHash key)) key = true := by
  have hfile : key ≠ cacheMetadataFile := by
    rintro rfl
    exact absurd h (by decide +kernel)
  have hscratch : cacheMetadataScratchSuffix.isSuffixOf key = false := by
    rw [Bool.eq_false_iff]
    intro hsuffix
    exact not_suffix_of_validKey h ".tm".toList (c := 'p') (by decide)
      (List.isSuffixOf_iff_suffix.mp hsuffix)
  have hmarker : incompleteSuffix.isSuffixOf key = false := by
    rw [Bool.eq_false_iff]
    intro hsuffix
    exact not_suffix_of_validKey h ".incomplet".toList (c := 'e') (by decide)
      (List.isSuffixOf_iff_suffix.mp hsuffix)
  simp [CacheManager.registersFile, isMetadataScratchName, hfile, hscratch, hmarker, h]

lemma mem_entriesBelow {infoHash : Str} (h : e ∈ entriesBelow root infoHash) :
    ∃ es, DirEntry.dir (some infoHash) es ∈ root ∧ e ∈ es := by
  obtain ⟨d, hd, he⟩ := List.mem_flatMap.mp h
  split at he
  · next name es =>
    split at he
    · next hname => exact ⟨es, hname ▸ hd, he⟩
    · cases he
  · cases he

lemma mem_of_pieceFileContent (h : pieceFileContent root key = some bytes) :
    DirEntry.file (some key) (some bytes) ∈ entriesBelow root (pieceKeyInfoHash key) := by
  obtain ⟨e, he, hcontent⟩ := exists_of_findSome?_eq_some h
  split at hcontent
  · next name content =>
    split at hcontent
    · next hname =>
      subst hname hcontent
      exact he
    · cases hcontent
  · cases hcontent

lemma mem_pieceFiles_of_mem (he : e ∈ es) (hp : p ∈ CacheManager.pieceFilesIn parent e) :
    p ∈ CacheManager.pieceFiles parent es := by
  induction es with
  | nil => cases he
  | cons d es ih =>
    rw [CacheManager.pieceFiles, mem_append]
    rcases List.mem_cons.mp he with rfl | he
    · exact .inl hp
    · exact .inr (ih he)

lemma mem_walkFiles_of_piecePathFile
    (h : piecePathFile root key = some bytes) : (key, bytes.length) ∈ walkFiles root := by
  unfold piecePathFile at h
  split at h
  · next hvalid =>
    obtain ⟨es, hdir, hfile⟩ := mem_entriesBelow (mem_of_pieceFileContent h)
    apply mem_pieceFiles_of_mem hdir
    rw [CacheManager.pieceFilesIn]
    apply mem_pieceFiles_of_mem hfile
    rw [CacheManager.pieceFilesIn, if_pos (registersFile_of_validKey hvalid)]
    exact List.mem_singleton.mpr rfl
  · cases h

mutual

lemma filter_pieceFilesIn (parent : Option Str) (above : List (Option Str)) (key : Str) :
    ∀ e : DirEntry, ((CacheManager.pieceFilesIn parent e).filter fun p => p.1 = key) =
      ((filesIn (parent :: above) e).filter fun f =>
        isValidPieceKey key ∧ f.1.take 2 = [some key, some (pieceKeyInfoHash key)]).map
          fun f => (key, f.2)
  | .dir name entries => by
      rw [CacheManager.pieceFilesIn, filesIn]
      exact filter_pieceFiles name (parent :: above) key entries
  | .unreadable _ => rfl
  | .other _ _ => rfl
  | .file none content => by cases content <;> simp [CacheManager.pieceFilesIn, filesIn]
  | .file (some _) none => rfl
  | .file (some name) (some bytes) => by
      have hregisters : CacheManager.registersFile parent name = true ↔
          isValidPieceKey name = true ∧ parent = some (pieceKeyInfoHash name) := by
        constructor
        · intro h
          simp only [CacheManager.registersFile, Bool.and_eq_true, beq_iff_eq] at h
          exact ⟨h.1.2, h.2⟩
        · rintro ⟨hvalid, rfl⟩
          exact registersFile_of_validKey hvalid
      rw [CacheManager.pieceFilesIn, filesIn]
      by_cases hkey : name = key
      · subst hkey
        by_cases hname : CacheManager.registersFile parent name = true
        · rw [if_pos hname]
          simp [hregisters.mp hname]
        · have hnot := mt hregisters.mpr hname
          rw [if_neg hname]
          simp only [filter_nil]
          grind
      · split <;> simp [hkey]

lemma filter_pieceFiles (parent : Option Str) (above : List (Option Str)) (key : Str) :
    ∀ es : List DirEntry, ((CacheManager.pieceFiles parent es).filter fun p => p.1 = key) =
      ((filesOf (parent :: above) es).filter fun f =>
        isValidPieceKey key ∧ f.1.take 2 = [some key, some (pieceKeyInfoHash key)]).map
          fun f => (key, f.2)
  | [] => rfl
  | e :: es => by
      rw [CacheManager.pieceFiles, filesOf, filter_append, filter_append, map_append,
        filter_pieceFilesIn parent above key e, filter_pieceFiles parent above key es]

end

lemma lastOf_walkFiles (root : List DirEntry) (key : Str) :
    FinMap.lastOf (walkFiles root) key = (namesakes root key).getLast?.map Prod.snd := by
  rw [FinMap.lastOf, walkFiles, filter_pieceFiles _ [] key root, getLast?_map, Option.map_map]
  rfl

/-- A startup that succeeds registers exactly the files that can be reached through `piece_path`,
with their sizes, the access and the hits of their last valid line, no verified piece, and those
with a marker as incomplete, if and only if the tree is tidy. -/
theorem indexesReachable_iff {pieces : Option (List DirEntry)} {metadata : Option (List UInt8)}
    {maxCacheSize : ℕ} {clock : Str → ℕ} {saveFails : Bool} {c : CacheManager}
    (h : CacheManager.new (startupContent pieces metadata) maxCacheSize clock saveFails = .ok c) :
    IndexesReachable pieces metadata c ↔ Tidy (pieces.getD []) := by
  have hget := CacheManager.get_new h
  simp only [lastOf_walkFiles, Option.map_map] at hget
  constructor
  · intro hindex key path size hlast
    obtain ⟨bytes, hfile, hsize⟩ := hindex.size key _ ((hget key).trans (congrArg _ hlast))
    exact ⟨bytes, hfile, hsize.symm⟩
  · intro htidy
    refine ⟨fun key => ?_, fun key info hinfo => ?_, fun key info line hinfo hline => ?_,
      CacheManager.verified_new h, CacheManager.mem_incomplete_new h⟩
    · rw [FinMap.mem_keys, hget, Option.isSome_map]
      constructor
      · intro hmet
        obtain ⟨⟨path, size⟩, hlast⟩ := Option.isSome_iff_exists.mp hmet
        obtain ⟨bytes, hfile, -⟩ := htidy key path size hlast
        rw [hfile]
        rfl
      · intro hfile
        obtain ⟨bytes, hbytes⟩ := Option.isSome_iff_exists.mp hfile
        rw [← Option.isSome_map (f := Prod.snd), ← lastOf_walkFiles, FinMap.isSome_lastOf]
        exact List.mem_map.mpr ⟨_, mem_walkFiles_of_piecePathFile hbytes, rfl⟩
    · obtain ⟨⟨path, size⟩, hlast, rfl⟩ := Option.map_eq_some_iff.mp ((hget key).symm.trans hinfo)
      obtain ⟨bytes, hfile, hsize⟩ := htidy key path size hlast
      exact ⟨bytes, hfile, hsize.symm⟩
    · obtain ⟨size, -, rfl⟩ := Option.map_eq_some_iff.mp ((hget key).symm.trans hinfo)
      rw [hline]
      exact ⟨rfl, rfl⟩

/-- A piece at its own place, and a namesake of the same length elsewhere. -/
def tidyTree : List DirEntry :=
  [.dir (some sampleHash) [.file (some sampleKey) (some [1, 2, 3])],
    .dir (some "old".toList) [.file (some "notes".toList) (some []),
      .dir (some sampleHash) [.file (some sampleKey) (some [4, 5, 6])]]]

theorem indexesReachable_tidyTree : ∃ c, CacheManager.new (startupContent (some tidyTree)
        (some (recordLine (sampleKey, ⟨5, 7, 1⟩)))) 10 (fun _ => 0) false = .ok c ∧
      IndexesReachable (some tidyTree) (some (recordLine (sampleKey, ⟨5, 7, 1⟩))) c := by
  obtain ⟨c, hc⟩ : ∃ c, CacheManager.new (startupContent (some tidyTree)
      (some (recordLine (sampleKey, ⟨5, 7, 1⟩)))) 10 (fun _ => 0) false = .ok c := ⟨_, rfl⟩
  refine ⟨c, hc, (indexesReachable_iff hc).mpr ?_⟩
  have hwalk : walkFiles tidyTree = [(sampleKey, 3), (sampleKey, 3)] := by decide +kernel
  have hfile : piecePathFile tidyTree sampleKey = some [1, 2, 3] := by decide +kernel
  intro key path size hlast
  have hmem := FinMap.mem_of_lastOf ((lastOf_walkFiles tidyTree key).trans (congrArg _ hlast))
  obtain ⟨rfl, rfl⟩ : key = sampleKey ∧ size = 3 := by simpa [hwalk] using hmem
  exact ⟨_, hfile, rfl⟩

def nestedTree : List DirEntry :=
  [.dir (some "old".toList) [.dir (some sampleHash) [.file (some sampleKey) (some [1, 2, 3])]]]

/-- A piece file two levels down is registered with its size, although `piece_path` does not reach
it. -/
theorem nested_piece_is_registered :
    ∃ c, CacheManager.new (startupContent (some nestedTree) none) 10 (fun _ => 0) false = .ok c ∧
      c.metadata.get sampleKey = some ⟨0, 3, 0⟩ ∧ piecePathFile nestedTree sampleKey = none :=
  ⟨_, rfl, by decide +kernel, by decide +kernel⟩

end TorrentFs.Cache
