import TorrentFs.Db.Schema
import TorrentFs.Lib.FinMap
import TorrentFs.Lib.SqlTable

/-!
# The files of a torrent content

The tables `torrent_directories`, `directory_closure` and `torrent_files`: what
`insert_files_in_tx` writes for the file list of a content, and what the deletion of the content
takes away by cascade.
-/

namespace TorrentFs.Db

open Text Sql

structure FileEntry where
  path : Str
  size : ℤ
deriving DecidableEq

/-- A row of `torrent_files`, without the columns that no insertion sets. -/
structure FileRow where
  id : ℕ
  torrentId : ℕ
  directoryId : Option ℕ
  name : Str
  path : Str
  size : ℤ
deriving DecidableEq

structure FileTables where
  directories : AutoTable TorrentDirectory TorrentDirectory.id
  closure : List Closure
  files : AutoTable FileRow FileRow.id

def pathParts (path : Str) : List Str := path.splitOn '/'

def joinParts (parts : List Str) : Str := ['/'].intercalate parts

namespace FileTables

def empty : FileTables := ⟨AutoTable.empty, [], AutoTable.empty⟩

/-- `SELECT id FROM torrent_directories WHERE torrent_id = ? AND parent_id IS ? AND name = ?`. -/
def findDirectory (t : FileTables) (contentId : ℕ) (parent : Option ℕ) (name : Str) : Option ℕ :=
  (t.directories.rows.find? fun d =>
    d.torrentId == contentId && d.parentId == parent && d.name == name).map TorrentDirectory.id

/-- A directory row and its closure rows: the pair of the directory with itself, and one pair for
each ancestor of the parent. -/
def insertDirectory (t : FileTables) (contentId : ℕ) (parent : Option ℕ) (name : Str) :
    Except SqlError (FileTables × ℕ) :=
  match t.directories.insert (fun id => ⟨id, contentId, parent, name⟩) fun _ => rfl with
  | .error e => .error e
  | .ok (directories, id) =>
    let closure := t.closure ++ [⟨id, id, 0⟩]
    let closure := match parent with
      | none => closure
      | some parentId =>
        closure ++ (closure.filter fun c => c.descendantId == parentId).map fun c =>
          ⟨c.ancestorId, id, c.depth + 1⟩
    .ok ({ t with directories, closure }, id)

def enterDirectory (contentId : ℕ) (t : FileTables) (dirCache : FinMap Str ℕ)
    (parent : Option ℕ) (currentPath part : Str) :
    Except SqlError (FileTables × FinMap Str ℕ × ℕ) :=
  match dirCache.get currentPath with
  | some id => .ok (t, dirCache, id)
  | none =>
    match t.findDirectory contentId parent part with
    | some id => .ok (t, dirCache.insert currentPath id, id)
    | none =>
      match t.insertDirectory contentId parent part with
      | .error e => .error e
      | .ok (t, id) => .ok (t, dirCache.insert currentPath id, id)

/-- The parts of the path of a file, after those in `done`: directories, and last the file. -/
def insertParts (contentId : ℕ) (entry : FileEntry) :
    List Str → List Str → Option ℕ → FileTables → FinMap Str ℕ →
      Except SqlError (FileTables × FinMap Str ℕ)
  | _, [], _, t, dirCache => .ok (t, dirCache)
  | _, [name], parent, t, dirCache =>
    match t.files.insert (fun id => ⟨id, contentId, parent, name, entry.path, entry.size⟩)
      fun _ => rfl with
    | .error e => .error e
    | .ok (files, _) => .ok ({ t with files }, dirCache)
  | done, part :: rest, parent, t, dirCache =>
    match enterDirectory contentId t dirCache parent (joinParts (done ++ [part])) part with
    | .error e => .error e
    | .ok (t, dirCache, id) =>
      insertParts contentId entry (done ++ [part]) rest (some id) t dirCache

def insertFilesLoop (contentId : ℕ) :
    List FileEntry → FileTables → FinMap Str ℕ → Except SqlError FileTables
  | [], t, _ => .ok t
  | entry :: files, t, dirCache =>
    match insertParts contentId entry [] (pathParts entry.path) none t dirCache with
    | .error e => .error e
    | .ok (t, dirCache) => insertFilesLoop contentId files t dirCache

def insertFilesInTx (t : FileTables) (contentId : ℕ) (files : List FileEntry) :
    Except SqlError FileTables :=
  insertFilesLoop contentId files t FinMap.empty

def cascadeDirectories (t : FileTables) : ℕ → List ℕ → List ℕ
  | 0, ids => ids
  | fuel + 1, ids =>
    let children := t.directories.rows.filter fun d => d.parentId.any ids.contains
    cascadeDirectories t fuel (ids ++ children.map TorrentDirectory.id)

def deleteContent (t : FileTables) (contentId : ℕ) : FileTables :=
  let own := (t.directories.rows.filter fun d => d.torrentId == contentId).map TorrentDirectory.id
  let gone := t.cascadeDirectories t.directories.rows.length own
  { directories := t.directories.filter fun d => !gone.contains d.id
    closure := t.closure.filter fun c =>
      !gone.contains c.ancestorId && !gone.contains c.descendantId
    files := t.files.filter fun f => f.torrentId != contentId && !f.directoryId.any gone.contains }

end FileTables

end TorrentFs.Db
