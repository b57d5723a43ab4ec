import Mathlib.Data.Finset.Union
import TorrentFs.Lib.Commits
import TorrentFs.Db.Schema

/-!
# Schema migrations

`run_migrations` brings a database of any earlier schema version to the latest one. The steps up
to version 4 are one transaction, each later one commits for itself, and the version number is
written by statements of their own. The metadata directories of the source paths are filled in
when the database was older than version 3 at the start of the run.

The temporary tables of the migrations and the pragma that turns foreign keys off leave nothing
in the database file and are not steps of their own.
-/

namespace TorrentFs.Db

open Text

/-- What the migrations take from outside: the hash of a torrent file, and the order in which
`SELECT DISTINCT` lists its results. -/
structure Sqlite where
  contentHashOf : List UInt8 → Str
  distinct : List Str → List Str
  mem_distinct : ∀ l x, x ∈ distinct l ↔ x ∈ l

def requireTable {α : Type} : Option α → Except DbError α
  | none => .error .noSuchTable
  | some t => .ok t

namespace Table

def addColumn {κ ρ : Type} [DecidableEq κ] (t : Table κ ρ) (column : κ) (setDefault : ρ → ρ) :
    Except DbError (Table κ ρ) :=
  if column ∈ t.columns then .error .duplicateColumn
  else .ok ⟨insert column t.columns, t.rows.map setDefault⟩

end Table

namespace Database

def setVersion (n : ℕ) (db : Database) : Database := { db with userVersion := n }

def migrateV1 (db : Database) : Database :=
  { db with
    torrents := some (db.torrents.getD
      ⟨{.fileCount, .status, .sourcePath, .torrentData, .resumeData}, []⟩)
    torrentDirectories := some (db.torrentDirectories.getD [])
    directoryClosure := some (db.directoryClosure.getD [])
    torrentFiles := some (db.torrentFiles.getD ⟨{.path, .firstPiece, .lastPiece}, []⟩) }

def migrateV2 (db : Database) : Except DbError Database := do
  let torrents ← requireTable db.torrents
  let torrents ← torrents.addColumn .fileCount fun t => { t with fileCount := 1 }
  let torrents ← torrents.addColumn .status fun t => { t with status := "pending".toList }
  let torrents ← torrents.addColumn .torrentData fun t => { t with torrentData := none }
  let torrents ← torrents.addColumn .resumeData fun t => { t with resumeData := none }
  let files ← requireTable db.torrentFiles
  let files ← files.addColumn .path fun f => { f with path := [] }
  let files ← files.addColumn .firstPiece fun f => { f with firstPiece := 0 }
  let files ← files.addColumn .lastPiece fun f => { f with lastPiece := 0 }
  return { db with torrents := some torrents, torrentFiles := some files }

def migrateV3 (db : Database) : Database :=
  { db with metadata := some (db.metadata.getD ⟨[], []⟩) }

def migrateV4 (db : Database) : Except DbError Database := do
  let torrents ← requireTable db.torrents
  let torrents ← torrents.addColumn .filename fun t => { t with filename := t.name }
  return { db with torrents := some torrents }

def toVersion2 (db : Database) : Except DbError Database :=
  if db.userVersion < 1 then .ok (db.migrateV1.setVersion 2)
  else if db.userVersion = 1 then db.migrateV2.map (setVersion 2)
  else .ok db

def baseTransaction (db : Database) : Except DbError Database := do
  let v := db.userVersion
  let db ← db.toVersion2
  let db := if v < 3 then db.migrateV3.setVersion 3 else db
  if v < 4 then db.migrateV4.map (setVersion 4) else .ok db

def v5Columns : Finset TorrentColumn :=
  {.fileCount, .status, .sourcePath, .torrentData, .resumeData, .filename}

/-- `SELECT MAX(id) FROM torrents GROUP BY source_path, filename`: whether `id` is among them. -/
def isRetained (rows : List Torrent) (id : ℕ) : Bool :=
  rows.any fun t => t.id = id && rows.all fun u =>
    decide (¬(u.sourcePath = t.sourcePath ∧ u.filename = t.filename) ∨ u.id ≤ t.id)

def deleteChildren (db : Database) (orphan : ℕ → Bool) : Except DbError Database := do
  let dirs ← requireTable db.torrentDirectories
  let closure ← requireTable db.directoryClosure
  let files ← requireTable db.torrentFiles
  let orphanDirs := (dirs.filter fun d => orphan d.torrentId).map TorrentDirectory.id
  return { db with
    directoryClosure := some (closure.filter fun c =>
      !(orphanDirs.contains c.ancestorId || orphanDirs.contains c.descendantId))
    torrentDirectories := some (dirs.filter fun d => !orphan d.torrentId)
    torrentFiles := some { files with rows := files.rows.filter fun f => !orphan f.torrentId } }

def migrateV5 (db : Database) : Except DbError Database := do
  let torrents ← requireTable db.torrents
  if v5Columns ⊆ torrents.columns then
    let orphan := fun id => torrents.rows.any (fun t => t.id = id) && !isRetained torrents.rows id
    let db ← db.deleteChildren orphan
    return { db with
      torrents := some ⟨v5Columns, torrents.rows.filter fun t => isRetained torrents.rows t.id⟩ }
  else .error .noSuchColumn

def v6Columns : Finset TorrentColumn :=
  {.fileCount, .status, .torrentData, .resumeData, .contentHash}

/-- What the loop of `migrate_v6` has built: the content rows, the source rows, the new id of
each old one and the old ids that were folded into another row. -/
structure Split where
  contents : List Torrent
  sources : List TorrentSource
  oldToNew : List (ℕ × ℕ)
  duplicateOldIds : List ℕ

def splitRow (sqlite : Sqlite) (s : Split) (t : Torrent) : Split :=
  let known := t.torrentData.bind fun bytes =>
    (s.contents.find? fun c => c.torrentData = some bytes).map Torrent.id
  let contentId := known.getD (s.contents.length + 1)
  let source : TorrentSource := ⟨s.sources.length + 1, contentId, t.sourcePath, t.filename⟩
  let content : Torrent := { t with
    id := contentId
    sourcePath := []
    filename := []
    contentHash := (t.torrentData.map sqlite.contentHashOf).getD [] }
  { contents := if known.isSome then s.contents else s.contents ++ [content]
    sources := s.sources ++ [source]
    oldToNew := s.oldToNew ++ [(t.id, contentId)]
    duplicateOldIds := if known.isSome then s.duplicateOldIds ++ [t.id] else s.duplicateOldIds }

/-- `UPDATE … SET torrent_id = (SELECT new_id …)`: a row without a new id violates `NOT NULL`. -/
def rekey (oldToNew : List (ℕ × ℕ)) (id : ℕ) : Except DbError ℕ :=
  match oldToNew.lookup id with
  | some new => .ok new
  | none => .error .constraintFailed

def migrateV6 (sqlite : Sqlite) (db : Database) : Except DbError Database := do
  let torrents ← requireTable db.torrents
  if ¬ v5Columns ⊆ torrents.columns then .error .noSuchColumn
  else if db.torrentSources.isSome then .error .tableExists
  else
    let split := torrents.rows.foldl (splitRow sqlite) ⟨[], [], [], []⟩
    if ¬ (split.sources.map fun s => (s.sourcePath, s.filename)).Nodup then
      .error .constraintFailed
    else
      let db ← db.deleteChildren fun id => split.duplicateOldIds.contains id
      let dirs ← requireTable db.torrentDirectories
      let files ← requireTable db.torrentFiles
      let dirs ← dirs.mapM fun d =>
        (rekey split.oldToNew d.torrentId).map fun id => { d with torrentId := id }
      let fileRows ← files.rows.mapM fun f =>
        (rekey split.oldToNew f.torrentId).map fun id => { f with torrentId := id }
      return { db with
        torrents := some ⟨v6Columns, split.contents⟩
        torrentSources := some split.sources
        torrentDirectories := some dirs
        torrentFiles := some { files with rows := fileRows } }

def hasIndexedTable (db : Database) : LookupIndex → Bool
  | .torrentFilesDirName => db.torrentFiles.isSome
  | .torrentDirsTorrentParentName => db.torrentDirectories.isSome

def createIndex (index : LookupIndex) (db : Database) : Except DbError Database :=
  if db.hasIndexedTable index then .ok { db with indexes := insert index db.indexes }
  else .error .noSuchTable

end Database

/-! ### The metadata directories of a path -/

namespace MetadataTables

def nextId (m : MetadataTables) : ℕ := (m.directories.map MetadataDirectory.id).foldr max 0 + 1

def insertDirectory (m : MetadataTables) (d : MetadataDirectory) : MetadataTables :=
  { m with directories := m.directories ++ [d] }

def insertSelf (m : MetadataTables) (id : ℕ) : MetadataTables :=
  { m with closure := m.closure ++ [⟨id, id, 0⟩] }

def insertAncestors (m : MetadataTables) (id parentId : ℕ) : MetadataTables :=
  { m with closure := m.closure ++
      (m.closure.filter fun c => c.descendantId = parentId).map fun c =>
        ⟨c.ancestorId, id, c.depth + 1⟩ }

def createDirectory (m : MetadataTables) (parentId : Option ℕ) (name path : Str) :
    List MetadataTables :=
  let id := m.nextId
  let m₁ := m.insertDirectory ⟨id, parentId, name, path⟩
  let m₂ := m₁.insertSelf id
  match parentId with
  | none => [m₁, m₂]
  | some parent => [m₁, m₂, m₂.insertAncestors id parent]

/-- The loop of `ensure_metadata_directories` over the parts of a path: the states it commits. -/
def ensureParts (currentPath : Str) (parentId : Option ℕ) :
    List Str → MetadataTables → List MetadataTables
  | [], _ => []
  | part :: rest, m =>
    let path := if currentPath = [] then part else currentPath ++ '/' :: part
    match m.directories.find? fun d => d.path = path with
    | some d => ensureParts path (some d.id) rest m
    | none =>
      let states := m.createDirectory parentId part path
      states ++ ensureParts path (some m.nextId) rest (states.getLastD m)

def pathParts (path : Str) : List Str := (path.splitOn '/').filter fun part => part ≠ []

def ensureMetadataDirectories (path : Str) (m : MetadataTables) : List MetadataTables :=
  ensureParts [] none (pathParts path) m

def ensureAll : List Str → MetadataTables → List MetadataTables
  | [], _ => []
  | path :: rest, m =>
    let states := m.ensureMetadataDirectories path
    states ++ ensureAll rest (states.getLastD m)

end MetadataTables

namespace Database

def backfillPaths (sqlite : Sqlite) (sources : List TorrentSource) : List Str :=
  sqlite.distinct ((sources.map TorrentSource.sourcePath).filter fun p => p ≠ [])

/-- The directories of all source paths. A path whose directories cannot be created would be
skipped with a warning; the tables leave no statement here that can fail. -/
def backfill (sqlite : Sqlite) (db : Database) : Except DbError (List Database) := do
  let sources ← requireTable db.torrentSources
  let metadata ← requireTable db.metadata
  return (MetadataTables.ensureAll (backfillPaths sqlite sources) metadata).map fun m =>
    { db with metadata := some m }

/-- The parts of the migration, in turn. -/
inductive MigrationStep
  | base
  | v5
  | version5
  | v6
  | version6
  | backfill
  | indexFiles
  | indexDirs
  | version7
deriving DecidableEq

open Commits MigrationStep in
def steps (sqlite : Sqlite) (v : ℕ) : List (Step Database DbError MigrationStep) :=
  [once base baseTransaction] ++
    (if v < 5 then [once v5 migrateV5, once version5 fun db => .ok (db.setVersion 5)] else []) ++
    (if v < 6 then [once v6 (migrateV6 sqlite), once version6 fun db => .ok (db.setVersion 6)]
      else []) ++
    (if v < 3 then [⟨.backfill, Database.backfill sqlite⟩] else []) ++
    (if v < 7 then [once indexFiles (createIndex .torrentFilesDirName),
      once indexDirs (createIndex .torrentDirsTorrentParentName),
      once version7 fun db => .ok (db.setVersion 7)] else [])

def runMigrations (sqlite : Sqlite) (db : Database) : Except DbError Database :=
  Commits.run (steps sqlite db.userVersion) db

/-- The states a stop of the run leaves, each with the step that committed it and the number of
statements that step still had to commit; `none` is a stop before the first commit. -/
def stops (sqlite : Sqlite) (db : Database) : List (Option (MigrationStep × ℕ) × Database) :=
  (none, db) ::
    (Commits.stops (steps sqlite db.userVersion) db).map fun s => (some s.1, s.2)

/-- A database below version 3 has no metadata directories yet. -/
def WellFormed (db : Database) : Prop := db.userVersion < 3 → db.metadata = none

def sourcePaths (db : Database) : List Str :=
  ((db.torrents.map Table.rows).getD []).map Torrent.sourcePath

/-- The stops after which a second run ends where an uninterrupted one does. The version 6
migration must not be committed without its version number. A run from below version 3 must not
have committed anything yet, or have created all metadata directories, or have none to create. -/
def Restartable (db : Database) : Option (MigrationStep × ℕ) → Prop
  | none => True
  | some (step, left) => step ≠ .v6 ∧ (db.userVersion < 3 →
      (step = .backfill ∧ left = 0) ∨ step = .indexFiles ∨ step = .indexDirs ∨ step = .version7 ∨
        ∀ p ∈ db.sourcePaths, MetadataTables.pathParts p = [])

end Database

end TorrentFs.Db
