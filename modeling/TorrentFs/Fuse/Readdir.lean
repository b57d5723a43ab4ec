import Mathlib.Data.Finset.Sort
import TorrentFs.Fuse.ListingCache

/-!
# The pages and the names of a listing

The kernel reads a listing page by page and may accept only the beginning of a page. It also looks
up single names. Reading all pages gives the listing, and a lookup finds what is listed, unless a
child is called `.stats` like the virtual file.
-/

namespace TorrentFs.Fuse

open Text Db Services InodeManager FsService List Function

/-! ### Pages -/

def metadataEntry (ino child : ℕ) : InodeData → Option (ℕ × FileKind × Str)
  | .directory parent name =>
    if parent = ino ∧ name ≠ [] then some (child, .directory, name) else none
  | .file parent name _ unlinked =>
    if parent = ino ∧ ¬unlinked then some (child, .regularFile, name) else none

/-- The part of `readdir` for the root, whose offsets are written out, and for `metadata/`. The
children are sorted by number, and the counter starts after the entries `.` and `..`. -/
def readdirMetadata (m : FinMap ℕ InodeData) (ino : ℕ) : Option (List DirEntry) :=
  let dot : DirEntry := ⟨ino, 1, .directory, ".".toList⟩
  if ino = rootIno then
    some [dot, ⟨rootIno, 2, .directory, "..".toList⟩,
      ⟨metadataIno, 3, .directory, "metadata".toList⟩, ⟨dataIno, 4, .directory, "data".toList⟩,
      ⟨statsIno, 5, .regularFile, ".stats".toList⟩]
  else
    match m.get ino with
    | some (.directory parent _) =>
      let entries := [dot, ⟨parent, 2, .directory, "..".toList⟩]
      let children := (m.keys.sort (· ≤ ·)).filterMap fun child =>
        (m.get child).bind (metadataEntry ino child)
      some (NumberedListing.push ⟨entries, entries.length + 1⟩ children).entries
    | _ => none

def FsService.readdirEntries (hash : List Str → ℕ) (s : FsService) (keys : List (Str × Str))
    (ino : ℕ) : Option (List DirEntry) :=
  if isDataNamespace ino then (s.readdir hash ino keys).1 else readdirMetadata s.inodes ino

/-- The offset at which the next call resumes: that of the last entry that was accepted. -/
def resumeAt (delivered : List DirEntry) : ℤ :=
  (delivered.getLast?.map fun e => (e.offset : ℤ)).getD 0

/-- The entries accepted after one more call, of whose page at most `k` entries are accepted. -/
def deliver (entries delivered : List DirEntry) (k : ℕ) : List DirEntry :=
  delivered ++ (pageAfterOffset entries (resumeAt delivered)).take k

section Pages

variable {es : List (ℕ × FileKind × Str)}

lemma pairwise_withOffsets : (withOffsets es).Pairwise fun e e' => e.offset < e'.offset := by
  rw [pairwise_iff_getElem]
  intro i j hi hj hij
  simpa [withOffsets] using hij

lemma exists_withOffsets {hash : List Str → ℕ} {s : FsService} {keys : List (Str × Str)}
    {ino : ℕ} {entries : List DirEntry} (h : s.readdirEntries hash keys ino = some entries) :
    ∃ es, entries = withOffsets es := by
  unfold FsService.readdirEntries at h
  split at h
  · unfold FsService.readdir at h
    split at h
    · rw [readdirData_fst] at h
      obtain ⟨d, -, rfl⟩ := Option.map_eq_some_iff.mp h
      exact ⟨_, rfl⟩
    · cases h
  · unfold readdirMetadata at h
    split at h
    · cases h
      exact ⟨dotEntries ino rootIno ++ [(metadataIno, .directory, "metadata".toList),
        (dataIno, .directory, "data".toList), (statsIno, .regularFile, ".stats".toList)], rfl⟩
    split at h
    · cases h
      exact ⟨_, NumberedListing.entries_push_start⟩
    · cases h

lemma resumeAt_take (n : ℕ) : resumeAt ((withOffsets es).take n) = (min n es.length : ℕ) := by
  unfold resumeAt
  rw [getLast?_eq_getElem?, length_take, length_withOffsets]
  rcases Nat.eq_zero_or_pos (min n es.length) with hzero | hpos
  · rw [hzero, getElem?_eq_none]
    · rfl
    · simp only [length_take, length_withOffsets]
      omega
  · have hlast : min n es.length - 1 < es.length := by omega
    rw [getElem?_take_of_lt (by omega), getElem?_withOffsets,
      getElem?_eq_getElem hlast]
    simp
    omega

lemma pageAfterOffset_withOffsets {n : ℕ} (hn : n ≤ es.length) :
    pageAfterOffset (withOffsets es) n = ((withOffsets es).drop n).take readdirPageEntries := by
  have hstart : Search.partitionPoint (fun e : DirEntry => ((e.offset : ℤ) ≤ n : Bool))
      (withOffsets es) = n := by
    refine Search.partitionPoint_eq (by simpa using hn) fun i hi => ?_
    rw [length_withOffsets] at hi
    rw [Search.holdsAt, getElem?_withOffsets, getElem?_eq_getElem hi]
    simp only [Option.map_some, Option.any_some, decide_eq_true_eq]
    omega
  rw [pageAfterOffset, hstart, drop_take]
  rcases le_total (n + readdirPageEntries) (withOffsets es).length with hpage | hpage
  · rw [min_eq_left hpage, Nat.add_sub_cancel_left]
  · rw [min_eq_right hpage, take_of_length_le (by simp), take_of_length_le (by simp at *; omega)]

lemma deliver_take (n k : ℕ) : deliver (withOffsets es) ((withOffsets es).take n) k =
      (withOffsets es).take (n + min k readdirPageEntries) := by
  unfold deliver
  rw [resumeAt_take, pageAfterOffset_withOffsets (min_le_right _ _), take_take, take_add]
  congr 1
  rcases le_total n es.length with hle | hle
  · rw [min_eq_left hle]
  · -- nothing is left, and the page is empty
    rw [drop_eq_nil_of_le (by simpa using hle), drop_eq_nil_of_le (by simp [hle])]

lemma foldl_deliver (accepts : List ℕ) (n : ℕ) :
    accepts.foldl (deliver (withOffsets es)) ((withOffsets es).take n) =
      (withOffsets es).take (n + (accepts.map (min · readdirPageEntries)).sum) := by
  induction accepts generalizing n with
  | nil => simp
  | cons k accepts ih =>
    rw [foldl_cons, deliver_take, ih]
    simp [Nat.add_assoc]

end Pages

theorem pages_deliver_listing {hash : List Str → ℕ} {s : FsService} {keys : List (Str × Str)}
    {ino : ℕ} {entries : List DirEntry} (h : s.readdirEntries hash keys ino = some entries) :
    (entries.Pairwise fun e e' => e.offset < e'.offset) ∧
      ∀ accepts : List ℕ, (∀ k ∈ accepts, 1 ≤ k) → accepts.foldl (deliver entries) [] <+: entries ∧
          (entries.length ≤ accepts.length → accepts.foldl (deliver entries) [] = entries) ∧
          (pageAfterOffset entries (resumeAt (accepts.foldl (deliver entries) [])) = [] ↔
            accepts.foldl (deliver entries) [] = entries) := by
  obtain ⟨es, rfl⟩ := exists_withOffsets h
  refine ⟨pairwise_withOffsets, fun accepts haccepts => ?_⟩
  have hfold : accepts.foldl (deliver (withOffsets es)) ((withOffsets es).take 0) = _ :=
    foldl_deliver accepts 0
  rw [List.take_zero, Nat.zero_add] at hfold
  rw [hfold]
  have hsum : accepts.length ≤ (accepts.map (min · readdirPageEntries)).sum := by
    have hone : ∀ k ∈ accepts.map (min · readdirPageEntries), 1 ≤ k := by
      intro k hk
      obtain ⟨accepted, haccepted, rfl⟩ := List.mem_map.mp hk
      exact le_min (haccepts accepted haccepted) (by decide)
    simpa using List.card_nsmul_le_sum _ 1 hone
  generalize (accepts.map (min · readdirPageEntries)).sum = n at hsum
  refine ⟨List.take_prefix _ _, fun hlength => List.take_of_length_le (by omega), ?_⟩
  rw [resumeAt_take, pageAfterOffset_withOffsets (min_le_right _ _), List.take_eq_nil_iff,
    List.drop_eq_nil_iff,
    List.take_eq_self_iff, length_withOffsets]
  simp [readdirPageEntries]

theorem pages_deliver_root :
    ∃ entries, FsService.new.readdirEntries (fun _ => 0) [] rootIno = some entries ∧
      entries.length = 5 ∧ [2, 2, 1, 1, 1].foldl (deliver entries) [] = entries := by
  have hentries : FsService.new.readdirEntries (fun _ => 0) [] rootIno = some _ := rfl
  exact ⟨_, hentries, rfl,
    ((pages_deliver_listing hentries).2 [2, 2, 1, 1, 1] (by decide)).2.1 (by decide)⟩

/-! ### Names -/

def resolveIn (hash : List Str → ℕ) (m : FinMap ℕ InodeData) (names : NameTables) :
    Option DataInode → Str → Option (ℕ × DataInode)
  | none, name => resolveDataRootLookup hash names name
  | some d, name => resolveChild hash m names d name

def findIn (hash : List Str → ℕ) (m : FinMap ℕ InodeData) (names : NameTables)
    (processing : Finset (Str × Str)) (d : Option DataInode) (name : Str) :
    Option (ℕ × DataInode) :=
  match resolveIn hash m names d name with
  | some e => some e
  | none => (sourcePathOf d).bind fun path =>
    if (path, name) ∈ processing then
      some (makePendingTorrentIno hash path name,
        .torrentRoot 0 path (parsePendingTorrentName m path name) name)
    else none

def fileKind : PathTree.Kind ℕ → FileKind
  | .directory => .directory
  | .file _ => .regularFile

def FsService.lookupEntry (hash : List Str → ℕ) (s : FsService) (parent : ℕ) (name : Str) :
    Option (ℕ × FileKind) :=
  match if name = ".stats".toList then s.lookupStats parent else none with
  | some answer => answer.map fun ino => (ino, .regularFile)
  | none => (lookupDataInode hash s.inodeMgr s.names s.processingTorrents parent name).1.map
      fun e => (e.1, fileKind e.2)

def hasStats : Option DataInode → Bool
  | some (.torrentDir ..) => false
  | _ => true

section Names

variable {hash : List Str → ℕ} {s : FsService} {m : FinMap ℕ InodeData} {names : NameTables}
  {keys : List (Str × Str)} {ino : ℕ} {d : Option DataInode} {name : Str}

lemma lookupStats_eq (h : dataDir s.inodeMgr ino = some d) :
    s.lookupStats ino = some (if hasStats d then some (makeStatsIno ino) else none) := by
  obtain ⟨rfl, rfl⟩ | ⟨hroot, i, rfl, hget, hfile⟩ := dataDir_cases h
  · rfl
  · cases i with
    | torrentFile => exact absurd rfl (hfile _ _ _ _ _ _)
    | _ => simp [lookupStats, hroot, hget, hasStats]

lemma lookupDataInode_fst {mgr : InodeManager} (h : dataDir mgr ino = some d)
    (processing : Finset (Str × Str)) : (lookupDataInode hash mgr names processing ino name).1 =
      (findIn hash mgr.inodes names processing d name).map fun e => (e.1, e.2.kindSize) := by
  have hpath : dataDirSourcePath mgr ino = sourcePathOf d := by
    obtain ⟨rfl, rfl⟩ | ⟨hroot, i, rfl, hget, -⟩ := dataDir_cases h
    · rfl
    · cases i <;> simp [dataDirSourcePath, hroot, hget, sourcePathOf]
  have hresolve : resolveDataLookup hash mgr names ino name =
      resolveIn hash mgr.inodes names d name := by
    obtain ⟨rfl, rfl⟩ | ⟨hroot, i, rfl, hget, -⟩ := dataDir_cases h
    · rfl
    · simp [resolveDataLookup, resolveIn, hroot, hget]
  unfold lookupDataInode findIn
  rw [hresolve, hpath]
  cases resolveIn hash mgr.inodes names d name with
  | some e => rfl
  | none =>
    cases sourcePathOf d with
    | none => rfl
    | some path =>
      dsimp only [Option.bind_some]
      split <;> rfl

lemma lookupEntry_eq (h : dataDir s.inodeMgr ino = some d) : s.lookupEntry hash ino name =
      if name = ".stats".toList then
        if hasStats d then some (makeStatsIno ino, .regularFile) else none
      else (findIn hash s.inodes s.names s.processingTorrents d name).map
        fun e => (e.1, fileKind e.2.kindSize) := by
  unfold lookupEntry
  by_cases hname : name = ".stats".toList
  · rw [if_pos hname, if_pos hname, lookupStats_eq h]
    cases hasStats d <;> rfl
  · rw [if_neg hname, if_neg hname, lookupDataInode_fst h, Option.map_map]
    rfl

/-- The file rows of a directory of a torrent belong to its content. This can fail for an inode that
was cached before its torrent got another content. -/
def RowsOwned (names : NameTables) : Option DataInode → Prop
  | some (.torrentDir torrentId dirId _ _ _ _) =>
    torrentId ≠ 0 → FilesOwned names.torrents torrentId (some dirId)
  | _ => True

lemma resolves_recorded (hrows : RowsOwned names d) :
    Resolves (resolveIn hash m names d) (recorded hash m names d) := by
  cases d with
  | none =>
    refine ⟨fun name e hname h => ?_, fun c hc => ?_⟩
    · exact (mem_recorded rfl).mpr
        (List.mem_append.mp ((resolves_sourcePath []).listed name e hname h))
    · exact (resolves_sourcePath []).found c (List.mem_append.mpr ((mem_recorded rfl).mp hc))
  | some d =>
    cases d with
    | sourcePathDir path => exact resolves_sourcePath path
    | torrentRoot torrentId sourcePath name filename =>
      by_cases hid : torrentId = 0
      · convert resolves_pending sourcePath filename [] using 1
        · exact funext fun _ => if_pos hid
        · exact if_pos hid
      · have howned : FilesOwned names.torrents torrentId none := fun h => absurd rfl h
        convert resolves_landed howned using 1
        · exact funext fun _ => if_neg hid
        · exact if_neg hid
    | torrentDir torrentId dirId name dirPath sourcePath filename =>
      by_cases hid : torrentId = 0
      · convert resolves_pending sourcePath filename dirPath using 1
        · exact funext fun _ => if_pos hid
        · exact if_pos hid
      · convert resolves_landed (hrows hid) using 1
        · exact funext fun _ => if_neg hid
        · exact if_neg hid
    | torrentFile => exact ⟨fun _ _ _ h => (nomatch h), fun _ h => (nomatch h)⟩

lemma resolves_findIn (hrows : RowsOwned names d) : Resolves (findIn hash m names keys.toFinset d)
      (recorded hash m names d ++ underway hash m names keys d) := by
  have h : Resolves (resolveIn hash m names d) (recorded hash m names d) :=
    resolves_recorded hrows
  refine ⟨fun name e hname hfind => ?_, fun c hc hname hnone => ?_⟩
  · rw [mem_append]
    unfold findIn at hfind
    split at hfind
    · next e' hresolve =>
      cases hfind
      exact .inl (h.listed name e hname hresolve)
    · next hresolve =>
      obtain ⟨path, hpath, hfind⟩ := Option.bind_eq_some_iff.mp hfind
      split at hfind
      · next hkey =>
        cases hfind
        refine .inr ((mem_underway hpath).mpr ⟨name, List.mem_toFinset.mp hkey, ?_, rfl⟩)
        intro hmem
        obtain ⟨c, hc, rfl⟩ := List.mem_map.mp hmem
        exact h.found c hc hname hresolve
      · cases hfind
  · unfold findIn at hnone
    split at hnone
    · cases hnone
    · next hresolve =>
      rcases List.mem_append.mp hc with hc | hc
      · exact h.found c hc hname hresolve
      · cases hpath : sourcePathOf d with
        | none => simp [underway_eq_nil hpath] at hc
        | some path =>
          obtain ⟨filename, hkey, -, rfl⟩ := (mem_underway hpath).mp hc
          simp [hpath, hkey] at hnone

/-- The listing has exactly one entry `.stats` and it is the virtual file, or none where a lookup
finds none. -/
def StatsAgree (hash : List Str → ℕ) (m : FinMap ℕ InodeData) (names : NameTables)
    (keys : List (Str × Str)) (ino : ℕ) (d : Option DataInode) : Prop :=
  showsStats hash m d = hasStats d ∧
    ∀ c ∈ recorded hash m names d ++ underway hash m names keys d, c.name = ".stats".toList →
      hasStats d = true ∧ (c.ino, c.kind) = (makeStatsIno ino, .regularFile)

lemma listsAs_dataEntries (hdot : name ≠ ".".toList) (hdots : name ≠ "..".toList)
    (e : ℕ × FileKind) : ListsAs (withOffsets (dataEntries hash m names keys ino d)) name e ↔
      (∃ c ∈ recorded hash m names d ++ underway hash m names keys d,
        c.name = name ∧ (c.ino, c.kind) = e) ∨ showsStats hash m d = true ∧ name = ".stats".toList ∧
        e = (makeStatsIno ino, .regularFile) := by
  rw [listsAs_withOffsets]
  constructor
  · intro h
    obtain ⟨n, kind⟩ := e
    simp only [dataEntries, dotEntries, listing, mem_append, mem_map, mem_cons,
      Prod.mk.injEq] at h
    rcases h with ((h | ⟨c, hc, rfl, rfl, rfl⟩) | h) | ⟨c, hc, rfl, rfl, rfl⟩
    · simp_all
    · exact .inl ⟨c, mem_append_left _ hc, rfl, rfl⟩
    · split at h
      · next hshows => exact .inr ⟨hshows, by simp_all [statsEntry, Prod.ext_iff]⟩
      · cases h
    · exact .inl ⟨c, mem_append_right _ hc, rfl, rfl⟩
  · rintro (⟨c, hc, rfl, rfl⟩ | ⟨hshows, rfl, rfl⟩)
    · exact mem_dataEntries_of_mem hc
    · simp [dataEntries, hshows, statsEntry]

/-- A lookup that finds the file rows of a directory of a torrent finds rows of its content. -/
lemma rowsOwned_of_found {torrentId dirId : ℕ}
    (h : ∀ f ∈ names.torrents.files.files.rows, f.directoryId = some dirId → Component f.name →
      ∃ e, resolveTorrentDirLookup names.torrents torrentId (some dirId) f.name = some e ∧
        e.1 = makeTorrentFileIno f.id ∧ fileKind e.2.kindSize = .regularFile) :
    FilesOwned names.torrents torrentId (some dirId) := by
  intro _ f hf hdir hname
  obtain ⟨e, hfind, hnumber, hkind⟩ := h f hf hdir hname
  unfold resolveTorrentDirLookup at hfind
  split at hfind
  · cases hfind
    cases hkind
  · obtain ⟨f', hfile, rfl⟩ := Option.map_eq_some_iff.mp hfind
    obtain ⟨contentId, hcontent, hfile⟩ := Option.bind_eq_some_iff.mp hfile
    have hcond := find?_some hfile
    have hid : f'.id = f.id := by simpa [makeTorrentFileIno] using hnumber
    -- the ids of rows are different
    obtain rfl : f' = f := Option.some.inj ((Sql.AutoTable.get?_eq_some.mpr
      ⟨mem_of_find?_eq_some hfile, hid⟩).symm.trans (Sql.AutoTable.get?_eq_some.mpr ⟨hf, rfl⟩))
    simp only [Bool.and_eq_true, beq_iff_eq] at hcond
    rw [hcontent, hcond.1.1]

lemma fileKind_kindSize (n : ℕ) (i : DataInode) (name : Str) :
    fileKind i.kindSize = ListedChild.kind ⟨n, i, name⟩ := by
  cases i <;> rfl

lemma showsStats_eq_hasStats_or (hash : List Str → ℕ) (m : FinMap ℕ InodeData)
    (names : NameTables) (keys : List (Str × Str)) (d : Option DataInode) :
    (showsStats hash m d = true → hasStats d = true) ∧
      (showsStats hash m d = false → hasStats d = true →
        recorded hash m names d ++ underway hash m names keys d = []) := by
  cases d with
  | none => simp [showsStats, hasStats]
  | some d =>
    cases d with
    | torrentRoot torrentId sourcePath name filename =>
      by_cases hid : torrentId = 0
      · cases hpending : readdirPendingTorrent hash m sourcePath filename [] <;>
          simp [showsStats, hasStats, recorded, underway, sourcePathOf, hid, hpending]
      · simp [showsStats, hasStats, hid]
    | _ => simp [showsStats, hasStats, recorded, underway, sourcePathOf]

/-- A lookup of a name finds a number and a kind exactly where the entries have them. -/
def LookupAgrees (hash : List Str → ℕ) (s : FsService) (ino : ℕ) (entries : List DirEntry) : Prop :=
  ∀ name, Component name → ∀ e, s.lookupEntry hash ino name = some e ↔ ListsAs entries name e

lemma statsAgree_of_agrees (hd : dataDir s.inodeMgr ino = some d)
    (h : LookupAgrees hash s ino (withOffsets (dataEntries hash s.inodes s.names keys ino d))) :
    StatsAgree hash s.inodes s.names keys ino d := by
  have hstats := showsStats_eq_hasStats_or hash s.inodes s.names keys d
  have hlookup := fun e => (h ".stats".toList ⟨by decide, by decide, by decide, by decide⟩
    e).trans (listsAs_dataEntries (by decide) (by decide) e)
  simp only [lookupEntry_eq hd, if_pos] at hlookup
  refine ⟨?_, fun c hc hname => ?_⟩
  · cases hshows : showsStats hash s.inodes d with
    | true => exact (hstats.1 hshows).symm
    | false =>
      cases hhas : hasStats d with
      | false => rfl
      | true =>
        -- nothing is listed, but the lookup finds the virtual file
        have := (hlookup (makeStatsIno ino, .regularFile)).mp (by simp [hhas])
        simp [hstats.2 hshows hhas, hshows] at this
  · have hfound := (hlookup (c.ino, c.kind)).mpr (.inl ⟨c, hc, hname, rfl⟩)
    cases hhas : hasStats d with
    | false => simp [hhas] at hfound
    | true =>
      rw [hhas, if_pos rfl] at hfound
      exact ⟨rfl, (Option.some.inj hfound).symm⟩

lemma rowsOwned_of_agrees (hd : dataDir s.inodeMgr ino = some d)
    (h : LookupAgrees hash s ino (withOffsets (dataEntries hash s.inodes s.names keys ino d)))
    (hagree : StatsAgree hash s.inodes s.names keys ino d) : RowsOwned s.names d := by
  cases d with
  | none => trivial
  | some d =>
    cases d with
    | torrentDir torrentId dirId dirName dirPath sourcePath filename =>
      intro hid
      refine rowsOwned_of_found fun f hf hdir hname => ?_
      have hc : ⟨makeTorrentFileIno f.id, .torrentFile torrentId f.id f.name f.size [] [],
          f.name⟩ ∈ recorded hash s.inodes s.names
            (some (.torrentDir torrentId dirId dirName dirPath sourcePath filename)) := by
        rw [recorded, if_neg hid]
        exact List.mem_append_right _ (List.mem_map.mpr ⟨f, List.mem_filter.mpr
          ⟨hf, by simp [hdir]⟩, rfl⟩)
      have hnot : f.name ≠ ".stats".toList := fun heq =>
        Bool.false_ne_true (hagree.2 _ (List.mem_append_left _ hc) heq).1
      have hfound := (h f.name hname _).mpr ((listsAs_dataEntries hname.notDot hname.notDotDot
        _).mpr (.inl ⟨_, List.mem_append_left _ hc, rfl, rfl⟩))
      rw [lookupEntry_eq hd, if_neg hnot] at hfound
      obtain ⟨e, hfind, he⟩ := Option.map_eq_some_iff.mp hfound
      obtain ⟨hnumber, hkind⟩ := Prod.mk.inj he
      refine ⟨e, ?_, hnumber, hkind⟩
      simp only [findIn, resolveIn, resolveChild, if_neg hid, sourcePathOf,
        Option.bind_none] at hfind
      grind
    | _ => trivial

end Names

/-- For every directory of `data/` whose children have distinct names: a lookup finds the names that
the listing has, with their numbers and kinds, and no others, if and only if `StatsAgree` and
`RowsOwned` hold. -/
theorem lookup_agrees_iff {hash : List Str → ℕ} {s : FsService} {keys : List (Str × Str)} {ino : ℕ}
    {d : Option DataInode} {entries : List DirEntry} (hd : dataDir s.inodeMgr ino = some d)
    (hentries : (s.readdir hash ino keys).1 = some entries)
    (hkeys : keys.toFinset = s.processingTorrents) (hnodup : ((recorded hash s.inodes s.names d ++
      underway hash s.inodes s.names keys d).map ListedChild.name).Nodup) :
    LookupAgrees hash s ino entries ↔
      StatsAgree hash s.inodes s.names keys ino d ∧ RowsOwned s.names d := by
  obtain rfl : withOffsets (dataEntries hash s.inodes s.names keys ino d) = entries := by
    unfold FsService.readdir at hentries
    split at hentries
    · rw [readdirData_fst, hd] at hentries
      exact Option.some.inj hentries
    · cases hentries
  refine ⟨fun h => ?_, ?_⟩
  · have hagree := statsAgree_of_agrees hd h
    exact ⟨hagree, rowsOwned_of_agrees hd h hagree⟩
  rintro ⟨⟨hshows, hchildren⟩, hrows⟩ name hcomponent e
  rw [lookupEntry_eq hd, listsAs_dataEntries hcomponent.notDot hcomponent.notDotDot, hshows]
  by_cases hname : name = ".stats".toList
  · rw [if_pos hname]
    cases hhas : hasStats d <;> grind
  · rw [if_neg hname, ← hkeys, Option.map_eq_some_iff]
    simp only [(resolves_findIn hrows).eq_some_iff hnodup hcomponent]
    constructor
    · rintro ⟨⟨n, i⟩, hmem, rfl⟩
      exact .inl ⟨_, hmem, rfl, by rw [fileKind_kindSize n i name]⟩
    · rintro (⟨⟨n, i, _⟩, hmem, rfl, rfl⟩ | h)
      · exact ⟨(n, i), hmem, by rw [fileKind_kindSize n i]⟩
      · exact absurd h.2.1 hname

/-- The service with a landed torrent, after the listings of `data/` and of the torrent. -/
def listedTorrent : Option FsService :=
  (Run.runFrom (FsService.step (librariesOf multiTorrent)) FsService.new
    (addTorrentFile multiValue ++ [.persist FsService.noFaults 0, .finish 0])).map fun s =>
      ((s.readdir (fun _ => 0) dataIno []).2.readdir (fun _ => 0) (makeTorrentRootIno 1) []).2

theorem lookup_agrees_in_directory :
    ∃ s entries, listedTorrent = some s ∧
      (s.readdir (fun _ => 0) (makeTorrentDirIno 1) []).1 = some entries ∧
      entries.map DirEntry.name = [".".toList, "..".toList, "f".toList] ∧
      LookupAgrees (fun _ => 0) s (makeTorrentDirIno 1) entries := by
  obtain ⟨s, hs, hd, entries, hentries, hlisted, hkeys, hnames, hrows⟩ :
      ∃ s, listedTorrent = some s ∧
        dataDir s.inodeMgr (makeTorrentDirIno 1) =
          some (some (.torrentDir 1 1 "a".toList [] [] [])) ∧
        ∃ entries, (s.readdir (fun _ => 0) (makeTorrentDirIno 1) []).1 = some entries ∧
          entries.map DirEntry.name = [".".toList, "..".toList, "f".toList] ∧
          s.processingTorrents = ∅ ∧
          (landedEntries s.names.torrents 1 (some 1)).map ListedChild.name = ["f".toList] ∧
          ∀ f ∈ s.names.torrents.files.files.rows,
            resolveContentId s.names.torrents 1 = some f.torrentId := by
    decide +kernel
  have hchildren : (recorded (fun _ => 0) s.inodes s.names
      (some (.torrentDir 1 1 "a".toList [] [] [])) ++ underway (fun _ => 0) s.inodes s.names []
      (some (.torrentDir 1 1 "a".toList [] [] []))).map ListedChild.name = ["f".toList] := by
    rw [underway_eq_nil rfl, List.append_nil]
    exact hnames
  refine ⟨s, entries, hs, hentries, hlisted, (lookup_agrees_iff hd hentries hkeys.symm
    (by rw [hchildren]; decide)).mpr ⟨⟨rfl, fun c hc hname => ?_⟩, fun _ _ f hf _ _ => hrows f hf⟩⟩
  have hmem := List.mem_map_of_mem (f := ListedChild.name) hc
  rw [hchildren, hname] at hmem
  exact absurd hmem (by decide)

/-- A directory `.stats` of `metadata/` is listed beside the virtual file, which hides it from a
lookup. -/
theorem directory_hidden_by_stats :
    ∃ s, Run.runFrom (FsService.step (librariesOf multiTorrent)) FsService.new
        [.mkdir FsService.noFaults metadataIno ".stats".toList] = some s ∧
      ((s.readdir (fun _ => 0) dataIno []).1.map fun entries =>
        (entries.drop 2).map fun e => (e.ino, e.kind, e.name)) =
          some [(4000000, .directory, ".stats".toList),
            (makeStatsIno dataIno, .regularFile, ".stats".toList)] ∧
      s.lookupEntry (fun _ => 0) dataIno ".stats".toList =
        some (makeStatsIno dataIno, .regularFile) ∧
      (s.lookup (fun _ => 0) dataIno ".stats".toList).1 = some (makeStatsIno dataIno) := by
  decide +kernel

end TorrentFs.Fuse
