import TorrentFs.Fuse.Listings
import TorrentFs.Lib.Search

/-!
# The cached listing of a directory below `data/`

`readdir` keeps the listing it built last, together with the number of the directory and a state:
the change counter of the database and a signature of the set of pending torrents. As long as the
state is the same, the pages of that directory are cut from the kept listing.

The rows and the pending torrents are not all that a listing is built from. It also reads the inode
that is cached for the directory and, inside a pending torrent, the bytes of the torrent file in
`metadata/`. The state does not show when these change. Nor does it show the order in which the map
of the pending torrents gives its keys.

The change counter and the hasher of the signature are those of libraries: a call says by how much
it advances the counter.
-/

namespace TorrentFs.Fuse

open Text Word Db Services InodeManager

deriving instance DecidableEq for Sql.AutoTable
deriving instance DecidableEq for FileTables
deriving instance DecidableEq for TorrentTables
deriving instance DecidableEq for NameTables

/-! ### Lookups and listings -/

namespace FsService

/-- The `.stats` branch of `lookup`; the outer `none` leaves the name to the others. -/
def lookupStats (s : FsService) (parent : ℕ) : Option (Option ℕ) :=
  if parent = dataIno then some (some (makeStatsIno parent))
  else
    match s.inodeMgr.dataInodes.get parent with
    | none => none
    | some (.sourcePathDir _) => some (some (makeStatsIno parent))
    | some (.torrentRoot ..) => some (some (makeStatsIno parent))
    | some _ => some none

/-- `FsService::lookup`: the number of the child, and the service with what was cached. -/
def lookup (hash : List Str → ℕ) (s : FsService) (parent : ℕ) (name : Str) : Option ℕ × FsService :=
  if parent = rootIno then
    (if name = "metadata".toList then some metadataIno
      else if name = "data".toList then some dataIno
      else if name = ".stats".toList then some statsIno
      else none, s)
  else
    match if name = ".stats".toList then s.lookupStats parent else none with
    | some answer => (answer, s)
    | none =>
      if isDataNamespace parent then
        if s.torrentService then
          let found := lookupDataInode hash s.inodeMgr s.names s.processingTorrents parent name
          (found.1.map Prod.fst, { s with inodeMgr := found.2 })
        else (none, s)
      else (findChildByName s.inodes parent name, s)

/-- `readdir` of a directory below `data/`. The listing of another directory caches nothing. -/
def readdir (hash : List Str → ℕ) (s : FsService) (ino : ℕ) (keys : List (Str × Str)) :
    Option (List DirEntry) × FsService :=
  if isDataNamespace ino && s.torrentService then
    let listed := readdirData hash s.inodeMgr s.names keys ino
    (listed.1, { s with inodeMgr := listed.2 })
  else (none, s)

end FsService

/-! ### Pages and signatures -/

def readdirPageEntries : ℕ := 128

/-- `page_after_offset`: at most one page of the entries after the offset. -/
def pageAfterOffset (entries : List DirEntry) (offset : ℤ) : List DirEntry :=
  let start := Search.partitionPoint (fun e => (e.offset : ℤ) ≤ offset) entries
  let stop := min (start + readdirPageEntries) entries.length
  (entries.take stop).drop start

/-- `signature_of`, for the keys as the map gives them. Pairs are sorted by their first component,
then by the second. -/
def signatureOf (hasher : List (Str × Str) → ℕ) (keys : List (Str × Str)) : ℕ :=
  if keys = [] then 0
  else hasher (keys.insertionSort fun k k' => k.1 < k'.1 ∨ k.1 = k'.1 ∧ k.2 ≤ k'.2)

/-! ### What a listing reads -/

/-- What the listing of a directory reads of the inodes: the one that is cached for the directory,
and the bytes of the torrent file if that one belongs to a pending torrent. -/
def listingReads (mgr : InodeManager) (ino : ℕ) : Option DataInode × Option (List UInt8) :=
  if ino = dataIno then (none, none)
  else
    (mgr.dataInodes.get ino, ((mgr.dataInodes.get ino).bind pendingKey).bind fun k =>
      findPendingTorrentData mgr.inodes k.1 k.2)

section Reads

variable {hash : List Str → ℕ} {mgr mgr' : InodeManager} {names : NameTables}
  {keys : List (Str × Str)} {ino : ℕ} {m : FinMap ℕ InodeData}

lemma listing_collectPendingEntries (hash : List Str → ℕ) (m m' : FinMap ℕ InodeData)
    (keys : List (Str × Str)) (sourcePath : Str) (existingFilenames : List Str) :
    listing (collectPendingEntries hash m keys sourcePath existingFilenames) =
      listing (collectPendingEntries hash m' keys sourcePath existingFilenames) := by
  simp only [listing, collectPendingEntries, List.map_map]
  rfl

lemma readdirSourcePath_congr (mgr mgr' : InodeManager) (parent : ℕ) (path : Str)
    (landed : List ListedChild) : (readdirSourcePath hash mgr keys ino parent path landed).1 =
      (readdirSourcePath hash mgr' keys ino parent path landed).1 := by
  simp only [readdirSourcePath]
  rw [listing_collectPendingEntries hash mgr.inodes mgr'.inodes]

lemma readdirPendingTorrent_congr {m m' : FinMap ℕ InodeData} {sourcePath filename : Str}
    (h : findPendingTorrentData m sourcePath filename =
      findPendingTorrentData m' sourcePath filename) (dirPath : Str) :
    readdirPendingTorrent hash m sourcePath filename dirPath =
      readdirPendingTorrent hash m' sourcePath filename dirPath := by
  unfold readdirPendingTorrent
  rw [h]

lemma readdirData_congr (h : listingReads mgr ino = listingReads mgr' ino) :
    (readdirData hash mgr names keys ino).1 = (readdirData hash mgr' names keys ino).1 := by
  unfold readdirData
  by_cases hroot : ino = dataIno
  · rw [if_pos hroot, if_pos hroot]
    exact readdirSourcePath_congr mgr mgr' _ _ _
  · unfold listingReads at h
    rw [if_neg hroot, if_neg hroot, Prod.mk.injEq] at h
    obtain ⟨hinode, hbytes⟩ := h
    rw [if_neg hroot, if_neg hroot, ← hinode]
    rw [← hinode] at hbytes
    cases hget : mgr.dataInodes.get ino with
    | none => rfl
    | some d =>
      rw [hget] at hbytes
      cases d with
      | sourcePathDir path => exact readdirSourcePath_congr mgr mgr' _ _ _
      | torrentRoot torrentId sourcePath name filename =>
        dsimp only
        by_cases hpending : torrentId = 0
        · -- only here and in the directories below are bytes read
          have hdata : findPendingTorrentData mgr.inodes sourcePath filename =
              findPendingTorrentData mgr'.inodes sourcePath filename := by
            simpa [pendingKey, hpending] using hbytes
          rw [if_pos hpending, if_pos hpending, readdirPendingTorrent_congr hdata]
          cases readdirPendingTorrent hash mgr'.inodes sourcePath filename [] <;> rfl
        · rw [if_neg hpending, if_neg hpending]
      | torrentDir torrentId dirId name dirPath sourcePath filename =>
        dsimp only
        by_cases hpending : torrentId = 0
        · have hdata : findPendingTorrentData mgr.inodes sourcePath filename =
              findPendingTorrentData mgr'.inodes sourcePath filename := by
            simpa [pendingKey, hpending] using hbytes
          rw [if_pos hpending, if_pos hpending, readdirPendingTorrent_congr hdata]
          cases readdirPendingTorrent hash mgr'.inodes sourcePath filename dirPath <;> rfl
        · rw [if_neg hpending, if_neg hpending]
      | torrentFile torrentId fileId name size sourcePath filename => rfl

end Reads

/-! ### The file system with the kept listing -/

structure DataReaddirCache where
  ino : ℕ
  state : ℕ × ℕ
  entries : List DirEntry
deriving DecidableEq

/-- The file system, the change counter of its database, the keys of the pending torrents in the
order in which their map gives them, and the kept listing. -/
structure ListingSystem where
  service : FsService
  totalChanges : ℕ
  keys : List (Str × Str)
  dataReaddirCache : Option DataReaddirCache

/-- A call, with how far it advances the counter and the order of the keys if their set changes; a
lookup; a page of a listing. -/
inductive ListingAction
  | call (a : FsAction) (advance : ℕ) (keys : List (Str × Str))
  | lookup (parent : ℕ) (name : Str)
  | readdir (ino : ℕ) (offset : ℤ)

namespace ListingSystem

section Steps

variable (hash : List Str → ℕ) (hasher : List (Str × Str) → ℕ) (lib : Libraries)

def currentState (s : ListingSystem) : ℕ × ℕ := (s.totalChanges, signatureOf hasher s.keys)

def rebuilt (s : ListingSystem) (ino : ℕ) : Option (List DirEntry) :=
  (s.service.readdir hash ino s.keys).1

def kept (s : ListingSystem) (ino : ℕ) : Option DataReaddirCache :=
  s.dataReaddirCache.filter fun c => c.ino = ino && c.state = s.currentState hasher

def readdir (s : ListingSystem) (ino : ℕ) (offset : ℤ) : Option (List DirEntry) × ListingSystem :=
  if isDataNamespace ino && s.service.torrentService then
    match s.kept hasher ino with
    | some c => (some (pageAfterOffset c.entries offset), s)
    | none =>
      let listed := s.service.readdir hash ino s.keys
      match listed.1 with
      | some entries =>
        (some (pageAfterOffset entries offset),
          { s with
            service := listed.2
            dataReaddirCache := some ⟨ino, s.currentState hasher, entries⟩ })
      | none => (none, { s with service := listed.2 })
  else (none, s)

/-- The system after a step. The map gives its keys in the same order as long as none is added or
removed. -/
def step (s : ListingSystem) : ListingAction → Option ListingSystem
  | .call a advance keys =>
    (FsService.step lib s.service a).bind fun service =>
      let after := { s with service, totalChanges := s.totalChanges + advance }
      if service.processingTorrents = s.service.processingTorrents then some after
      else if keys.Nodup ∧ keys.toFinset = service.processingTorrents then
        some { after with keys }
      else none
  | .lookup parent name => some { s with service := (s.service.lookup hash parent name).2 }
  | .readdir ino offset => some (s.readdir hash hasher ino offset).2

def Counted (s : ListingSystem) (a : ListingAction) : Prop :=
  ∀ s' ∈ s.step hash hasher lib a, s'.totalChanges = s.totalChanges →
    s'.service.names = s.service.names

/-- A step that does not advance the counter leaves what the kept listing was built from. -/
def LeavesListed (s : ListingSystem) (a : ListingAction) : Prop :=
  ∀ s' ∈ s.step hash hasher lib a, ∀ c ∈ s'.dataReaddirCache,
    s'.totalChanges = s.totalChanges →
    listingReads s'.service.inodeMgr c.ino = listingReads s.service.inodeMgr c.ino

/-- The keys after a step are among those in `used`. -/
def Gives (used : Finset (List (Str × Str))) (s : ListingSystem) (a : ListingAction) : Prop :=
  ∀ s' ∈ s.step hash hasher lib a, s'.keys ∈ used

/-- A step as the database and the map of the pending torrents allow it, that leaves what the kept
listing was built from. -/
structure Admissible (used : Finset (List (Str × Str))) (s : ListingSystem)
    (a : ListingAction) : Prop where
  counted : s.Counted hash hasher lib a
  gives : s.Gives hash hasher lib used a
  leaves : s.LeavesListed hash hasher lib a

end Steps

/-- The signature has no collisions on the sets of keys that the map holds. -/
def NoCollision (hasher : List (Str × Str) → ℕ) (used : Finset (List (Str × Str))) : Prop :=
  ∀ keys ∈ used, ∀ keys' ∈ used, signatureOf hasher keys = signatureOf hasher keys' →
    keys.toFinset = keys'.toFinset

def OneOrder (used : Finset (List (Str × Str))) : Prop :=
  ∀ keys ∈ used, ∀ keys' ∈ used, keys.toFinset = keys'.toFinset → keys = keys'

/-! ### A kept listing that is current -/

/-- What a listing was built from, as far as the system shows it: the counter and the keys are those
of its state, and as long as the counter stands, the rows and what it read are as they were. -/
structure BuiltFrom (hash : List Str → ℕ) (hasher : List (Str × Str) → ℕ)
    (used : Finset (List (Str × Str))) (s : ListingSystem) (c : DataReaddirCache)
    (service : FsService) (changes : ℕ) (keys : List (Str × Str)) : Prop where
  state : c.state = (changes, signatureOf hasher keys)
  used : keys ∈ used
  counter : changes ≤ s.totalChanges
  entries : (readdirData hash service.inodeMgr service.names keys c.ino).1 = some c.entries
  names : s.totalChanges = changes → s.service.names = service.names
  reads : s.totalChanges = changes →
    listingReads s.service.inodeMgr c.ino = listingReads service.inodeMgr c.ino

/-- Each cached listing was built from the state as it still is. -/
structure Current (hash : List Str → ℕ) (hasher : List (Str × Str) → ℕ)
    (used : Finset (List (Str × Str))) (s : ListingSystem) : Prop where
  keys : s.keys ∈ used
  cached : ∀ c ∈ s.dataReaddirCache,
    ∃ service changes keys, BuiltFrom hash hasher used s c service changes keys

section Runs

variable {hash : List Str → ℕ} {hasher : List (Str × Str) → ℕ} {lib : Libraries}
  {used : Finset (List (Str × Str))} {s s' : ListingSystem} {c : DataReaddirCache}
  {service : FsService} {changes : ℕ} {keys : List (Str × Str)}

lemma names_readdir (s : FsService) (ino : ℕ) (keys : List (Str × Str)) :
    (s.readdir hash ino keys).2.names = s.names := by
  unfold FsService.readdir
  split <;> rfl

lemma BuiltFrom.keep (h : BuiltFrom hash hasher used s c service changes keys)
    (hcounter : s.totalChanges ≤ s'.totalChanges)
    (hnames : s'.totalChanges = s.totalChanges → s'.service.names = s.service.names)
    (hreads : s'.totalChanges = s.totalChanges →
      listingReads s'.service.inodeMgr c.ino = listingReads s.service.inodeMgr c.ino) :
    BuiltFrom hash hasher used s' c service changes keys := by
  have hstill : s'.totalChanges = changes →
      s.totalChanges = changes ∧ s'.totalChanges = s.totalChanges := by
    have := h.counter
    omega
  refine ⟨h.state, h.used, h.counter.trans hcounter, h.entries, fun heq => ?_, fun heq => ?_⟩
  · obtain ⟨hbefore, hsame⟩ := hstill heq
    exact (hnames hsame).trans (h.names hbefore)
  · obtain ⟨hbefore, hsame⟩ := hstill heq
    exact (hreads hsame).trans (h.reads hbefore)

lemma step_call {a : FsAction} {advance : ℕ} {keys : List (Str × Str)}
    (h : s.step hash hasher lib (.call a advance keys) = some s') :
    FsService.step lib s.service a = some s'.service ∧
      s'.totalChanges = s.totalChanges + advance ∧ s'.dataReaddirCache = s.dataReaddirCache := by
  obtain ⟨service, hservice, hafter⟩ := Option.bind_eq_some_iff.mp h
  split at hafter
  · cases hafter
    exact ⟨hservice, rfl, rfl⟩
  split at hafter
  · cases hafter
    exact ⟨hservice, rfl, rfl⟩
  · cases hafter

lemma step_cases {a : ListingAction} (h : s.step hash hasher lib a = some s') :
    s.totalChanges ≤ s'.totalChanges ∧ (s'.dataReaddirCache = s.dataReaddirCache ∨
        ∃ ino entries, s'.dataReaddirCache = some ⟨ino, s.currentState hasher, entries⟩ ∧
          s'.totalChanges = s.totalChanges ∧ s'.service.names = s.service.names ∧
          s.rebuilt hash ino = some entries ∧
          (isDataNamespace ino && s.service.torrentService) = true) := by
  cases a with
  | call a advance keys =>
    obtain ⟨-, hchanges, hcache⟩ := step_call h
    exact ⟨hchanges ▸ Nat.le_add_right _ _, .inl hcache⟩
  | lookup parent name =>
    cases h
    exact ⟨le_rfl, .inl rfl⟩
  | readdir ino offset =>
    cases h
    unfold readdir
    split
    · next hdata =>
      split
      · exact ⟨le_rfl, .inl rfl⟩
      · dsimp only
        split
        · next entries hentries =>
          exact ⟨le_rfl, .inr ⟨ino, entries, rfl, rfl, names_readdir _ _ _, hentries, hdata⟩⟩
        · exact ⟨le_rfl, .inl rfl⟩
    · exact ⟨le_rfl, .inl rfl⟩

lemma Current.step {a : ListingAction} (h : Current hash hasher used s)
    (ha : s.Admissible hash hasher lib used a) (hs : s.step hash hasher lib a = some s') :
    Current hash hasher used s' := by
  refine ⟨ha.gives s' hs, fun c hc => ?_⟩
  obtain ⟨hcounter, hsame | ⟨ino, entries, hnew, hchanges, hnames, hbuilt, hdata⟩⟩ := step_cases hs
  · obtain ⟨service, changes, keys, hfrom⟩ := h.cached c (hsame ▸ hc)
    exact ⟨service, changes, keys,
      hfrom.keep hcounter (ha.counted s' hs) (ha.leaves s' hs c hc)⟩
  · have hreads := ha.leaves s' hs c hc hchanges
    rw [hnew, Option.mem_some_iff] at hc
    subst hc
    -- the listing was built from the system before the step
    refine ⟨s.service, s.totalChanges, s.keys, rfl, h.keys, hcounter, ?_, fun _ => hnames,
      fun _ => hreads⟩
    unfold rebuilt FsService.readdir at hbuilt
    rw [if_pos hdata] at hbuilt
    exact hbuilt

lemma Current.rebuilt_eq (h : Current hash hasher used s) (hfree : NoCollision hasher used)
    (horder : OneOrder used) {ino : ℕ}
    (hdata : (isDataNamespace ino && s.service.torrentService) = true)
    (hkept : s.kept hasher ino = some c) : s.rebuilt hash ino = some c.entries := by
  obtain ⟨hcache, hcond⟩ := Option.filter_eq_some_iff.mp hkept
  rw [Bool.and_eq_true, decide_eq_true_eq, decide_eq_true_eq] at hcond
  obtain ⟨rfl, hstate⟩ := hcond
  obtain ⟨service, changes, keys, hfrom⟩ := h.cached c hcache
  -- the two halves of the state
  obtain ⟨hchanges, hsignature⟩ := Prod.mk.inj (hfrom.state.symm.trans hstate)
  have hkeys : keys = s.keys :=
    horder keys hfrom.used s.keys h.keys (hfree keys hfrom.used s.keys h.keys hsignature)
  unfold rebuilt FsService.readdir
  rw [if_pos hdata]
  rw [readdirData_congr (hfrom.reads hchanges.symm), hfrom.names hchanges.symm, ← hkeys]
  exact hfrom.entries

lemma current_of_empty (hcache : s.dataReaddirCache = none) (hkeys : s.keys ∈ used) :
    Current hash hasher used s := by
  refine ⟨hkeys, fun c hc => ?_⟩
  rw [hcache] at hc
  cases hc

/-- After a run in which every step leaves what the kept listing was built from, every page of every
directory below `data/` is the page of the listing that would be built. -/
theorem readdir_eq_rebuilt_of_run {acts : List ListingAction} (hfree : NoCollision hasher used)
    (horder : OneOrder used) (hcache : s.dataReaddirCache = none) (hkeys : s.keys ∈ used)
    (hrun : Run.runFrom (step hash hasher lib) s acts = some s')
    (halong : Run.Along (step hash hasher lib) (Admissible hash hasher lib used) s acts)
    (ino : ℕ) (offset : ℤ) : (s'.readdir hash hasher ino offset).1 =
      (s'.rebuilt hash ino).map fun entries => pageAfterOffset entries offset := by
  have hcurrent : Current hash hasher used s' :=
    Run.invariant_of_run_along (fun _ _ _ h ha hs => Current.step h ha hs)
      (current_of_empty hcache hkeys) halong hrun
  unfold readdir
  by_cases hdata : (isDataNamespace ino && s'.service.torrentService) = true
  · rw [if_pos hdata]
    cases hkept : s'.kept hasher ino with
    | some c =>
      rw [hcurrent.rebuilt_eq hfree horder hdata hkept]
      rfl
    | none =>
      unfold rebuilt
      dsimp only
      split
      · next hlisted =>
        rw [hlisted]
        rfl
      · next hlisted =>
        rw [hlisted]
        rfl
  · rw [if_neg hdata]
    unfold rebuilt FsService.readdir
    rw [if_neg hdata]
    rfl

end Runs

/-! ### Two runs -/

section Samples

instance (hash : List Str → ℕ) (hasher : List (Str × Str) → ℕ) (lib : Libraries)
    (s : ListingSystem) (a : ListingAction) : Decidable (s.Counted hash hasher lib a) :=
  inferInstanceAs (Decidable (∀ s' ∈ s.step hash hasher lib a,
    s'.totalChanges = s.totalChanges → s'.service.names = s.service.names))

instance (hash : List Str → ℕ) (hasher : List (Str × Str) → ℕ) (lib : Libraries)
    (s : ListingSystem) (a : ListingAction) : Decidable (s.LeavesListed hash hasher lib a) :=
  inferInstanceAs (Decidable (∀ s' ∈ s.step hash hasher lib a, ∀ c ∈ s'.dataReaddirCache,
    s'.totalChanges = s.totalChanges →
    listingReads s'.service.inodeMgr c.ino = listingReads s.service.inodeMgr c.ino))

instance (hash : List Str → ℕ) (hasher : List (Str × Str) → ℕ) (lib : Libraries)
    (used : Finset (List (Str × Str))) (s : ListingSystem) (a : ListingAction) :
    Decidable (s.Gives hash hasher lib used a) :=
  inferInstanceAs (Decidable (∀ s' ∈ s.step hash hasher lib a, s'.keys ∈ used))

instance (hash : List Str → ℕ) (hasher : List (Str × Str) → ℕ) (lib : Libraries)
    (used : Finset (List (Str × Str))) (s : ListingSystem) (a : ListingAction) :
    Decidable (s.Admissible hash hasher lib used a) :=
  decidable_of_iff (s.Counted hash hasher lib a ∧ s.Gives hash hasher lib used a ∧
      s.LeavesListed hash hasher lib a)
    ⟨fun h => ⟨h.1, h.2.1, h.2.2⟩, fun h => ⟨h.counted, h.gives, h.leaves⟩⟩

instance (hasher : List (Str × Str) → ℕ) (used : Finset (List (Str × Str))) :
    Decidable (NoCollision hasher used) :=
  inferInstanceAs (Decidable (∀ keys ∈ used, ∀ keys' ∈ used,
    signatureOf hasher keys = signatureOf hasher keys' → keys.toFinset = keys'.toFinset))

instance (used : Finset (List (Str × Str))) : Decidable (OneOrder used) :=
  inferInstanceAs (Decidable (∀ keys ∈ used, ∀ keys' ∈ used,
    keys.toFinset = keys'.toFinset → keys = keys'))

/-- A hasher for examples. -/
def sumOfCharacters (texts : List Str) : ℕ := (texts.flatten.map Char.toNat).sum

def fresh : ListingSystem := ⟨FsService.new, 0, [], none⟩

def pendingIno : ℕ := makePendingTorrentIno sumOfCharacters [] "a.torrent".toList

def torrentFileOf (name : Str) : List UInt8 :=
  Bencode.encode (.dict [(key "info", .dict
    [(key "files", .list [.dict [(key "length", .int 3),
        (key "path", .list [.str (utf8 name)])]]),
      (key "name", .str (utf8 "a".toList))])])

def listPending : List ListingAction :=
  [.call (.create metadataIno "a.torrent".toList) 0 [],
    .call (.write firstIno 0 (torrentFileOf "f".toList)) 0 [],
    .call (.release FsService.noFaults 1) 0 [([], "a.torrent".toList)],
    .readdir dataIno 0, .readdir pendingIno 0]

def pendingSets : Finset (List (Str × Str)) := {[], [([], "a.torrent".toList)]}

def writeBeside : List ListingAction :=
  listPending ++ [.call (.create metadataIno "b.torrent".toList) 0 [],
    .call (.write (firstIno + 1) 0 (torrentFileOf "g".toList)) 0 []]

def rewritePending : List ListingAction :=
  listPending ++ [.call (.openFile firstIno) 0 [],
    .call (.write firstIno 0 (torrentFileOf "g".toList)) 0 []]

theorem readdir_eq_rebuilt_beside_write :
    ∃ s', Run.runFrom (step sumOfCharacters List.length (librariesOf multiTorrent)) fresh
        writeBeside = some s' ∧ (s'.kept List.length pendingIno).isSome = true ∧
      (s'.readdir sumOfCharacters List.length pendingIno 0).1 =
        (s'.rebuilt sumOfCharacters pendingIno).map fun entries => pageAfterOffset entries 0 := by
  obtain ⟨s', hs', hkept⟩ : ∃ s', Run.runFrom (step sumOfCharacters List.length
      (librariesOf multiTorrent)) fresh writeBeside = some s' ∧
      (s'.kept List.length pendingIno).isSome = true := by decide +kernel
  have hfree : NoCollision List.length pendingSets := by decide +kernel
  exact ⟨s', hs', hkept, readdir_eq_rebuilt_of_run hfree (by decide +kernel) rfl
    (by decide +kernel) hs' (by decide +kernel) pendingIno 0⟩

/-- The page still shows the file of the first version; a listing built anew shows that of the
second. No row has changed, and the same torrent is pending. -/
theorem rewritten_torrent_keeps_old_listing :
    ∃ s', Run.runFrom (step sumOfCharacters List.length (librariesOf multiTorrent)) fresh
        rewritePending = some s' ∧ NoCollision List.length pendingSets ∧
      Run.Along (step sumOfCharacters List.length (librariesOf multiTorrent))
        (fun s a => s.Counted sumOfCharacters List.length (librariesOf multiTorrent) a ∧
          s.Gives sumOfCharacters List.length (librariesOf multiTorrent) pendingSets a)
        fresh rewritePending ∧ (s'.readdir sumOfCharacters List.length pendingIno 0).1.map
          (fun page => page.map DirEntry.name) =
        some [".".toList, "..".toList, "f".toList, ".stats".toList] ∧
      (s'.rebuilt sumOfCharacters pendingIno).map (fun entries => entries.map DirEntry.name) =
        some [".".toList, "..".toList, "g".toList, ".stats".toList] := by
  decide +kernel

end Samples

end ListingSystem

end TorrentFs.Fuse
