import Mathlib.Data.Finset.Insert
import TorrentFs.Lib.Text

/-!
# The tables of the database

One record type for each table, in the shape the latest schema gives it. A table that an earlier
schema keeps without some columns is a `Table`: the set of the optional columns it has, and rows
that hold the default in the others. Rows are in the order of their ids.
-/

namespace TorrentFs.Db

open Text

/-- The columns of `torrents` that some schema version lacks. -/
inductive TorrentColumn
  | fileCount
  | status
  | sourcePath
  | torrentData
  | resumeData
  | filename
  | contentHash
deriving DecidableEq

/-- The columns of `torrent_files` that some schema version lacks. -/
inductive FileColumn
  | path
  | firstPiece
  | lastPiece
deriving DecidableEq

structure Table (κ ρ : Type) where
  columns : Finset κ
  rows : List ρ

/-- A row of `torrents`. -/
structure Torrent where
  id : ℕ
  infoHash : Str
  name : Str
  totalSize : ℕ
  fileCount : ℕ
  status : Str
  sourcePath : Str
  torrentData : Option (List UInt8)
  resumeData : Option (List UInt8)
  createdAt : Str
  filename : Str
  contentHash : Str
deriving DecidableEq

/-- A row of `torrent_sources`. -/
structure TorrentSource where
  id : ℕ
  torrentId : ℕ
  sourcePath : Str
  filename : Str
deriving DecidableEq

/-- A row of `torrent_directories`. -/
structure TorrentDirectory where
  id : ℕ
  torrentId : ℕ
  parentId : Option ℕ
  name : Str
deriving DecidableEq

/-- A row of `torrent_files`. -/
structure TorrentFile where
  id : ℕ
  torrentId : ℕ
  directoryId : Option ℕ
  name : Str
  path : Str
  size : ℕ
  firstPiece : ℕ
  lastPiece : ℕ
deriving DecidableEq

/-- A row of `metadata_directories`. -/
structure MetadataDirectory where
  id : ℕ
  parentId : Option ℕ
  name : Str
  path : Str
deriving DecidableEq

/-- A row of `directory_closure` or `metadata_directory_closure`. -/
structure Closure where
  ancestorId : ℕ
  descendantId : ℕ
  depth : ℕ
deriving DecidableEq

/-- The indexes of the last schema version. Those of earlier versions are made together with
their tables. -/
inductive LookupIndex
  | torrentFilesDirName
  | torrentDirsTorrentParentName
deriving DecidableEq

structure MetadataTables where
  directories : List MetadataDirectory
  closure : List Closure
deriving DecidableEq

/-- The database file. A table that has not been created is `none`. -/
structure Database where
  userVersion : ℕ
  torrents : Option (Table TorrentColumn Torrent)
  torrentSources : Option (List TorrentSource)
  torrentDirectories : Option (List TorrentDirectory)
  directoryClosure : Option (List Closure)
  torrentFiles : Option (Table FileColumn TorrentFile)
  metadata : Option MetadataTables
  indexes : Finset LookupIndex

inductive DbError
  | noSuchTable
  | noSuchColumn
  | duplicateColumn
  | tableExists
  | constraintFailed
deriving DecidableEq

end TorrentFs.Db
