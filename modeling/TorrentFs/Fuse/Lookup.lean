import Mathlib.Data.List.Sort
import TorrentFs.Db.FileLookup
import TorrentFs.Db.Names
import TorrentFs.Fuse.Inodes
import TorrentFs.Fuse.PendingTorrent

/-!
# Lookups and listings below `data/`

The directories and files below `data/` are derived: source-path directories from the table of
metadata directories, torrents from the sources, what is inside a torrent from the rows of its
content, or, while it is being added, from the bytes of its file in `metadata/`. A lookup computes
the inode of the child and its number.

A number is a base plus a row id, or a base plus the hash of some strings modulo one million. The
hasher is that of the standard library and is a parameter here.
-/

namespace TorrentFs.Fuse

open Text Word Joined Db PathTree

/-! ### Numbers -/

def dataDirInoBase : ℕ := 2000000

def dataFileInoBase : ℕ := 3000000

def sourcePathDirInoBase : ℕ := 4000000

def pendingTorrentInoBase : ℕ := 5000000

def pendingTorrentDirInoBase : ℕ := 6000000

def pendingTorrentFileInoBase : ℕ := 7000000

def makeTorrentRootIno (torrentId : ℕ) : ℕ := dataTorrentInoBase + torrentId

def makeTorrentDirIno (dirId : ℕ) : ℕ := dataDirInoBase + dirId

def makeTorrentFileIno (fileId : ℕ) : ℕ := dataFileInoBase + fileId

def hashedIno (hash : List Str → ℕ) (base : ℕ) (texts : List Str) : ℕ :=
  base + hash texts % 1000000

def makeSourcePathDirIno (hash : List Str → ℕ) (path : Str) : ℕ :=
  hashedIno hash sourcePathDirInoBase [path]

def makePendingTorrentIno (hash : List Str → ℕ) (sourcePath filename : Str) : ℕ :=
  hashedIno hash pendingTorrentInoBase [sourcePath, filename]

def makePendingTorrentDirIno (hash : List Str → ℕ) (sourcePath filename dirPath : Str) : ℕ :=
  hashedIno hash pendingTorrentDirInoBase [sourcePath, filename, dirPath]

def makePendingTorrentFileIno (hash : List Str → ℕ) (sourcePath filename filePath : Str) : ℕ :=
  hashedIno hash pendingTorrentFileInoBase [sourcePath, filename, filePath]

def makeStatsIno (dirIno : ℕ) : ℕ := dirIno + statsInoOffset

/-! ### Queries -/

/-- `get_source_path_prefixes`, in the order of the rows: a lookup only searches it for a name, and
a listing sorts it. -/
def getSourcePathPrefixes (t : DirectoryTable) (path : Str) : List Str :=
  if path = [] then (t.rows.filter fun d => d.parentId = none).map MetadataDirectory.name
  else
    match t.rows.find? fun d => d.path = path with
    | some d => (t.rows.filter fun c => c.parentId = some d.id).map MetadataDirectory.name
    | none => []

def getTorrentsBySourcePath (t : TorrentTables) (sourcePath : Str) :
    List (TorrentSource × Content) :=
  (t.sources.rows.filter fun s => s.sourcePath = sourcePath).filterMap t.joined

def resolveContentId (t : TorrentTables) (sourceId : ℕ) : Option ℕ :=
  (t.sources.get? sourceId).map TorrentSource.torrentId

def getTorrentDirectory (t : TorrentTables) (sourceId : ℕ) (parent : Option ℕ) (name : Str) :
    Option ℕ :=
  (resolveContentId t sourceId).bind fun contentId => t.files.findDirectory contentId parent name

def getTorrentFileByName (t : TorrentTables) (sourceId : ℕ) (parent : Option ℕ) (name : Str) :
    Option FileRow :=
  (resolveContentId t sourceId).bind fun contentId => t.files.findFile contentId parent name

/-! ### Pending torrents -/

/-- The path of a child of a source-path directory, or of a directory of a pending torrent. -/
def childPath (path name : Str) : Str := if path = [] then name else path ++ '/' :: name

def isPendingFile (m : FinMap ℕ InodeData) (sourcePath filename : Str) : InodeData → Bool
  | .file parent name data unlinked =>
    !unlinked && name = filename && data ≠ [] &&
      InodeManager.extractSourcePath m parent = sourcePath
  | .directory _ _ => false

/-- `find_pending_torrent_data`: of several such files, which a tree does not have, the one with
the least number. -/
def findPendingTorrentData (m : FinMap ℕ InodeData) (sourcePath filename : Str) :
    Option (List UInt8) :=
  match (m.keys.filter fun ino =>
    (m.get ino).any (isPendingFile m sourcePath filename)).min.bind m.get with
  | some (.file _ _ data _) => some data
  | _ => none

def trimEndMatches (suffix : Str) : ℕ → Str → Str
  | 0, s => s
  | n + 1, s =>
    if suffix.isSuffixOf s then trimEndMatches suffix n (s.take (s.length - suffix.length))
    else s

def parsePendingTorrentName (m : FinMap ℕ InodeData) (sourcePath filename : Str) : Str :=
  ((findPendingTorrentData m sourcePath filename).bind extractBencodeName).getD
    (trimEndMatches ".torrent".toList filename.length filename)

def resolvePendingTorrentChildren (hash : List Str → ℕ) (m : FinMap ℕ InodeData)
    (sourcePath filename dirPath name : Str) : Option (ℕ × DataInode) :=
  (findPendingTorrentData m sourcePath filename).bind fun torrentData =>
    (extractBencodeFiles torrentData).bind fun (_, files) =>
      let above := if dirPath = [] then [] else dirPath ++ ['/']
      let hasSubdir := files.any fun f => (above ++ name ++ ['/']).isPrefixOf f.path
      if hasSubdir then
        let child := childPath dirPath name
        some (makePendingTorrentDirIno hash sourcePath filename child,
          .torrentDir 0 0 name child sourcePath filename)
      else
        let filePath := above ++ name
        (files.find? fun f => f.path = filePath).map fun f =>
          (makePendingTorrentFileIno hash sourcePath filename filePath,
            .torrentFile 0 0 name (toI64 f.size) sourcePath filename)

/-! ### Lookups -/

def resolveSourcePathDirLookup (hash : List Str → ℕ) (names : NameTables) (path name : Str) :
    Option (ℕ × DataInode) :=
  let newPath := childPath path name
  if name ∈ getSourcePathPrefixes names.directories path then
    some (makeSourcePathDirIno hash newPath, .sourcePathDir newPath)
  else
    ((getTorrentsBySourcePath names.torrents path).find? fun r => r.1.filename = name).map
      fun (s, c) => (makeTorrentRootIno s.id, .torrentRoot s.id s.sourcePath c.name s.filename)

def resolveDataRootLookup (hash : List Str → ℕ) (names : NameTables) (name : Str) :
    Option (ℕ × DataInode) :=
  resolveSourcePathDirLookup hash names [] name

def resolveTorrentDirLookup (t : TorrentTables) (torrentId : ℕ) (parentDirId : Option ℕ)
    (name : Str) : Option (ℕ × DataInode) :=
  match getTorrentDirectory t torrentId parentDirId name with
  | some dirId => some (makeTorrentDirIno dirId, .torrentDir torrentId dirId name [] [] [])
  | none =>
    (getTorrentFileByName t torrentId parentDirId name).map fun file =>
      (makeTorrentFileIno file.id, .torrentFile torrentId file.id file.name file.size [] [])

def resolveChild (hash : List Str → ℕ) (m : FinMap ℕ InodeData) (names : NameTables)
    (d : DataInode) (name : Str) : Option (ℕ × DataInode) :=
  match d with
  | .sourcePathDir path => resolveSourcePathDirLookup hash names path name
  | .torrentRoot torrentId sourcePath _ filename =>
    if torrentId = 0 then resolvePendingTorrentChildren hash m sourcePath filename [] name
    else resolveTorrentDirLookup names.torrents torrentId none name
  | .torrentDir torrentId dirId _ dirPath sourcePath filename =>
    if torrentId = 0 then resolvePendingTorrentChildren hash m sourcePath filename dirPath name
    else resolveTorrentDirLookup names.torrents torrentId (some dirId) name
  | .torrentFile _ _ _ _ _ _ => none

def resolveDataLookup (hash : List Str → ℕ) (mgr : InodeManager) (names : NameTables)
    (parent : ℕ) (name : Str) : Option (ℕ × DataInode) :=
  if parent = dataIno then resolveDataRootLookup hash names name
  else
    (mgr.dataInodes.get parent).bind fun d => resolveChild hash mgr.inodes names d name

def DataInode.kindSize : DataInode → Kind ℕ
  | .torrentFile _ _ _ size _ _ => .file (toU64 size)
  | _ => .directory

def InodeManager.cache (mgr : InodeManager) (entries : List (ℕ × DataInode)) : InodeManager :=
  { mgr with dataInodes := entries.foldl (fun m e => m.insert e.1 e.2) mgr.dataInodes }

/-- The source path whose torrents a directory lists: that of `data/` or of a source-path
directory. -/
def dataDirSourcePath (mgr : InodeManager) (ino : ℕ) : Option Str :=
  if ino = dataIno then some []
  else
    match mgr.dataInodes.get ino with
    | some (.sourcePathDir path) => some path
    | _ => none

/-- `lookup_data_inode`. The keys in `processing` are those of the torrents being added. -/
def lookupDataInode (hash : List Str → ℕ) (mgr : InodeManager) (names : NameTables)
    (processing : Finset (Str × Str)) (parent : ℕ) (name : Str) :
    Option (ℕ × Kind ℕ) × InodeManager :=
  match resolveDataLookup hash mgr names parent name with
  | some (ino, d) => (some (ino, d.kindSize), mgr.cache [(ino, d)])
  | none =>
    match dataDirSourcePath mgr parent with
    | none => (none, mgr)
    | some sourcePath =>
      if (sourcePath, name) ∈ processing then
        let ino := makePendingTorrentIno hash sourcePath name
        (some (ino, .directory), mgr.cache [(ino, .torrentRoot 0 sourcePath
          (parsePendingTorrentName mgr.inodes sourcePath name) name)])
      else (none, mgr)

/-! ### Listings -/

/-- An entry of a listing: the number, the inode that is cached for it, and the name. -/
structure ListedChild where
  ino : ℕ
  inode : DataInode
  name : Str

def sourcePathEntries (hash : List Str → ℕ) (t : DirectoryTable) (path : Str) : List ListedChild :=
  ((getSourcePathPrefixes t path).insertionSort (· ≤ ·)).map fun sub =>
    ⟨makeSourcePathDirIno hash (childPath path sub), .sourcePathDir (childPath path sub), sub⟩

def torrentEntries (t : TorrentTables) (path : Str) : List ListedChild :=
  (getTorrentsBySourcePath t path).map fun (s, c) =>
    ⟨makeTorrentRootIno s.id, .torrentRoot s.id s.sourcePath c.name s.filename, s.filename⟩

def collectPendingEntries (hash : List Str → ℕ) (m : FinMap ℕ InodeData)
    (keys : List (Str × Str)) (sourcePath : Str) (existingFilenames : List Str) :
    List ListedChild :=
  (keys.filter fun k => k.1 = sourcePath && k.2 ∉ existingFilenames).map fun k =>
    ⟨makePendingTorrentIno hash k.1 k.2,
      .torrentRoot 0 k.1 (parsePendingTorrentName m k.1 k.2) k.2, k.2⟩

def landedEntries (t : TorrentTables) (torrentId : ℕ) (parent : Option ℕ) : List ListedChild :=
  let contentId := resolveContentId t torrentId
  let dirs := t.files.directories.rows.filter fun d =>
    contentId = some d.torrentId && d.parentId = parent
  let files := t.files.files.rows.filter fun f =>
    f.directoryId = parent && (parent.isSome || contentId = some f.torrentId)
  dirs.map (fun d =>
      ⟨makeTorrentDirIno d.id, .torrentDir torrentId d.id d.name [] [] [], d.name⟩) ++
    files.map fun f =>
      ⟨makeTorrentFileIno f.id, .torrentFile torrentId f.id f.name f.size [] [], f.name⟩

/-- The loop of `readdir_pending_torrent`; `seenDirs` are the directories already listed. -/
def pendingEntries (hash : List Str → ℕ) (sourcePath filename dirPath : Str) :
    List Str → List PendingFile → List ListedChild
  | _, [] => []
  | seenDirs, f :: files =>
    let above := if dirPath = [] then [] else dirPath ++ ['/']
    let remainder := f.path.drop above.length
    if !above.isPrefixOf f.path || remainder = [] then
      pendingEntries hash sourcePath filename dirPath seenDirs files
    else
      match splitOnce ['/'] remainder with
      | some (dirName, _) =>
        if dirName ∈ seenDirs then
          pendingEntries hash sourcePath filename dirPath seenDirs files
        else
          let child := childPath dirPath dirName
          ⟨makePendingTorrentDirIno hash sourcePath filename child,
              .torrentDir 0 0 dirName child sourcePath filename, dirName⟩ ::
            pendingEntries hash sourcePath filename dirPath (dirName :: seenDirs) files
      | none =>
        ⟨makePendingTorrentFileIno hash sourcePath filename f.path,
            .torrentFile 0 0 remainder (toI64 f.size) sourcePath filename, remainder⟩ ::
          pendingEntries hash sourcePath filename dirPath seenDirs files

def readdirPendingTorrent (hash : List Str → ℕ) (m : FinMap ℕ InodeData)
    (sourcePath filename dirPath : Str) : Option (List ListedChild) :=
  (findPendingTorrentData m sourcePath filename).bind fun torrentData =>
    (extractBencodeFiles torrentData).map fun (_, files) =>
      pendingEntries hash sourcePath filename dirPath [] files

def pendingKey : DataInode → Option (Str × Str)
  | .sourcePathDir _ => none
  | .torrentRoot torrentId sourcePath _ filename =>
    if torrentId = 0 then some (sourcePath, filename) else none
  | .torrentDir torrentId _ _ _ sourcePath filename =>
    if torrentId = 0 then some (sourcePath, filename) else none
  | .torrentFile torrentId _ _ _ sourcePath filename =>
    if torrentId = 0 then some (sourcePath, filename) else none

def evictStalePending (mgr : InodeManager) (sourcePath : Str) (dbFilenames : List Str) :
    InodeManager :=
  { mgr with dataInodes := mgr.dataInodes.retain fun d =>
      !(pendingKey d).any fun k => k.1 = sourcePath && k.2 ∈ dbFilenames }

def InodeManager.list (mgr : InodeManager) (children : List ListedChild) : InodeManager :=
  mgr.cache (children.map fun c => (c.ino, c.inode))

inductive FileKind
  | directory
  | regularFile
deriving DecidableEq

structure DirEntry where
  ino : ℕ
  offset : ℕ
  kind : FileKind
  name : Str
deriving DecidableEq

def ListedChild.kind (c : ListedChild) : FileKind :=
  match c.inode with
  | .torrentFile .. => .regularFile
  | _ => .directory

def listing (children : List ListedChild) : List (ℕ × FileKind × Str) :=
  children.map fun c => (c.ino, c.kind, c.name)

/-- A listing under construction, with the counter from which its branch takes the offsets. -/
structure NumberedListing where
  entries : List DirEntry
  offsetCounter : ℕ

namespace NumberedListing

/-- `.` and `..` have the offsets 1 and 2 in every branch; the counter starts at 3. -/
def start (ino parent : ℕ) : NumberedListing where
  entries := [⟨ino, 1, .directory, ".".toList⟩, ⟨parent, 2, .directory, "..".toList⟩]
  offsetCounter := 3

/-- The loops over rows and files: an entry takes the counter, which then goes on. -/
def push (l : NumberedListing) (es : List (ℕ × FileKind × Str)) : NumberedListing :=
  es.foldl (fun l e => ⟨l.entries ++ [⟨e.1, l.offsetCounter, e.2.1, e.2.2⟩],
    l.offsetCounter + 1⟩) l

/-- The virtual file takes the counter, which stays. -/
def pushStats (l : NumberedListing) (ino : ℕ) : NumberedListing :=
  { l with entries := l.entries ++
      [⟨makeStatsIno ino, l.offsetCounter, .regularFile, ".stats".toList⟩] }

/-- The loop over pending torrents, in which the counter goes on before an entry takes it. -/
def pushPending (l : NumberedListing) (es : List (ℕ × FileKind × Str)) : NumberedListing :=
  es.foldl (fun l e => ⟨l.entries ++ [⟨e.1, l.offsetCounter + 1, e.2.1, e.2.2⟩],
    l.offsetCounter + 1⟩) l

end NumberedListing

/-- The entries of `readdir_pending_torrent`, which has a counter of its own. -/
def pendingListing (children : List ListedChild) : List DirEntry :=
  (NumberedListing.push ⟨[], 3⟩ (listing children)).entries

/-- The virtual file of a pending torrent takes the offset after that of the last entry. -/
def appendStats (entries : List DirEntry) (ino : ℕ) : List DirEntry :=
  entries ++ [⟨makeStatsIno ino, (entries.getLast?.map DirEntry.offset).getD 2 + 1, .regularFile,
    ".stats".toList⟩]

def parentOfSourcePath (hash : List Str → ℕ) (path : Str) : ℕ :=
  match rsplitOnce '/' path with
  | none => dataIno
  | some (above, _) => makeSourcePathDirIno hash above

/-- `..` of a directory of a pending torrent, from the path of the directory. -/
def parentOfPendingDir (hash : List Str → ℕ) (sourcePath filename dirPath : Str) : ℕ :=
  match rsplitOnce '/' dirPath with
  | none => makePendingTorrentIno hash sourcePath filename
  | some (above, _) => makePendingTorrentDirIno hash sourcePath filename above

/-- `..` of a directory of a landed torrent, from its row. -/
def parentOfTorrentDir (names : NameTables) (torrentId dirId : ℕ) : ℕ :=
  match (names.torrents.files.directories.get? dirId).bind TorrentDirectory.parentId with
  | none => makeTorrentRootIno torrentId
  | some parentId => makeTorrentDirIno parentId

/-- The listing of a directory that holds torrents. The pending torrents are added to the entries of
the tables, and what was cached of the torrents that have landed is evicted. -/
def readdirSourcePath (hash : List Str → ℕ) (mgr : InodeManager) (keys : List (Str × Str))
    (ino parent : ℕ) (path : Str) (landed : List ListedChild) :
    Option (List DirEntry) × InodeManager :=
  let existing := landed.map ListedChild.name
  let pending := collectPendingEntries hash mgr.inodes keys path existing
  let numbered := ((NumberedListing.start ino parent).push (listing landed)).pushStats ino
  (some (numbered.pushPending (listing pending)).entries,
    (evictStalePending mgr path existing).list (landed ++ pending))

def readdirData (hash : List Str → ℕ) (mgr : InodeManager) (names : NameTables)
    (keys : List (Str × Str)) (ino : ℕ) : Option (List DirEntry) × InodeManager :=
  if ino = dataIno then
    readdirSourcePath hash mgr keys ino rootIno []
      (torrentEntries names.torrents [] ++ sourcePathEntries hash names.directories [])
  else
    match mgr.dataInodes.get ino with
    | none => (none, mgr)
    | some (.sourcePathDir path) =>
      readdirSourcePath hash mgr keys ino (parentOfSourcePath hash path) path
        (sourcePathEntries hash names.directories path ++ torrentEntries names.torrents path)
    | some (.torrentRoot torrentId sourcePath _ filename) =>
      let dots := NumberedListing.start ino (parentOfSourcePath hash sourcePath)
      if torrentId = 0 then
        match readdirPendingTorrent hash mgr.inodes sourcePath filename [] with
        | some children =>
          (some (appendStats (dots.entries ++ pendingListing children) ino), mgr.list children)
        | none => (some dots.entries, mgr)
      else
        let children := landedEntries names.torrents torrentId none
        (some ((dots.push (listing children)).pushStats ino).entries, mgr.list children)
    | some (.torrentDir torrentId dirId _ dirPath sourcePath filename) =>
      if torrentId = 0 then
        let parent := parentOfPendingDir hash sourcePath filename dirPath
        let dots := (NumberedListing.start ino parent).entries
        match readdirPendingTorrent hash mgr.inodes sourcePath filename dirPath with
        | some children => (some (dots ++ pendingListing children), mgr.list children)
        | none => (some dots, mgr)
      else
        let parent := parentOfTorrentDir names torrentId dirId
        let children := landedEntries names.torrents torrentId (some dirId)
        (some ((NumberedListing.start ino parent).push (listing children)).entries,
          mgr.list children)
    | some (.torrentFile ..) => (none, mgr)

end TorrentFs.Fuse
