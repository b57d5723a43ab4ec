import TorrentFs.Db.Names
import TorrentFs.Fuse.Inodes
import TorrentFs.Services.Torrent

/-!
# The file system service

The calls of `FsService` that change the tree below `metadata/`, the cached inodes below `data/` or
the database, and the detached threads that `release` starts to persist a torrent. The dispatcher
takes one call after the other; between two calls any thread may take a step.

A call that waits for a thread acts on nothing the threads share before the wait is over, so it
is the same as the call made after the thread has ended. A wait here therefore looks once: when the
thread is still there, it has timed out.
-/

namespace TorrentFs.Fuse

open Text Word Sql Db Services

inductive FsError
  | notFound
  | notDirectory
  | isDirectory
  | alreadyExists
  | directoryNotEmpty
  | permissionDenied
  | readOnlyFileSystem
  | notPermitted
  | invalidArgument
  | fileTooLarge (message : Str)
  | database (error : SqlError)
  | internal (message : Str)
deriving DecidableEq

/-- A thread started by `release`: the name it persists under, its copy of the bytes, and whether
the insertion is behind it. -/
structure PersistThread where
  key : Str × Str
  data : List UInt8
  inserted : Bool
deriving DecidableEq

structure FsService where
  inodeMgr : InodeManager
  -- whether there is a database
  torrentService : Bool
  names : NameTables
  processingTorrents : Finset (Str × Str)
  threads : List PersistThread

/-- What goes wrong in the database during a call: a statement of a transaction, the query for
remaining references, and the insertions of directories after the first `budget`. -/
structure DbFaults where
  fault : Option SqlError
  checkFails : Bool
  budget : ℕ

namespace FsService

open InodeManager

def torrentSuffix : Str := ".torrent".toList

def isTorrentName (name : Str) : Bool := torrentSuffix.isSuffixOf name

def inodes (s : FsService) : FinMap ℕ InodeData := s.inodeMgr.inodes

def setInodes (s : FsService) (inodes : FinMap ℕ InodeData) : FsService :=
  { s with inodeMgr := { s.inodeMgr with inodes } }

def setDataInodes (s : FsService) (dataInodes : FinMap ℕ DataInode) : FsService :=
  { s with inodeMgr := { s.inodeMgr with dataInodes } }

def setTorrents (s : FsService) (torrents : TorrentTables) : FsService :=
  { s with names := { s.names with torrents } }

def ensureDirectories (s : FsService) (f : DbFaults) (sourcePath : Str) : FsService :=
  { s with names := { s.names with
      directories := s.names.directories.ensureMetadataDirectories f.budget sourcePath } }

/-! ### Files and directories -/

def checkNew (s : FsService) (parent : ℕ) (name : Str) (file : Bool) : Except FsError Unit :=
  if isDataNamespace parent then .error .readOnlyFileSystem
  else if !isMetadataChild s.inodes parent then .error .permissionDenied
  else if file && !isTorrentName name then .error .invalidArgument
  else if (findChildByName s.inodes parent name).isSome then .error .alreadyExists
  else .ok ()

def addInode (s : FsService) (d : InodeData) : FsService :=
  { s with inodeMgr := { s.inodeMgr with
      inodes := s.inodeMgr.inodes.insert s.inodeMgr.nextIno d
      nextIno := addU64 s.inodeMgr.nextIno 1 } }

def addHandle (s : FsService) (ino : ℕ) : FsService :=
  { s with inodeMgr := { s.inodeMgr with
      openFiles := s.inodeMgr.openFiles.insert s.inodeMgr.nextFh ino
      nextFh := addU64 s.inodeMgr.nextFh 1 } }

def mknod (s : FsService) (parent : ℕ) (name : Str) : Except FsError ℕ × FsService :=
  match s.checkNew parent name true with
  | .error e => (.error e, s)
  | .ok () => (.ok s.inodeMgr.nextIno, s.addInode (.file parent name [] false))

def create (s : FsService) (parent : ℕ) (name : Str) : Except FsError (ℕ × ℕ) × FsService :=
  match s.checkNew parent name true with
  | .error e => (.error e, s)
  | .ok () =>
    let ino := s.inodeMgr.nextIno
    (.ok (ino, s.inodeMgr.nextFh), (s.addInode (.file parent name [] false)).addHandle ino)

def childSourcePath (m : FinMap ℕ InodeData) (parent : ℕ) (name : Str) : Str :=
  if parent = metadataIno then name
  else
    let parentPath := extractSourcePath m parent
    if parentPath = [] then name else parentPath ++ '/' :: name

def mkdir (s : FsService) (f : DbFaults) (parent : ℕ) (name : Str) : Except FsError ℕ × FsService :=
  match s.checkNew parent name false with
  | .error e => (.error e, s)
  | .ok () =>
    let after := s.addInode (.directory parent name)
    (.ok s.inodeMgr.nextIno,
      if s.torrentService then
        after.ensureDirectories f (childSourcePath after.inodes parent name)
      else after)

/-- `open` of a file of `metadata/` or a `.stats` file; the files of `data/` are opened in the same
way when they are cached. A handle of `0` is none. -/
def openFile (s : FsService) (ino : ℕ) : Except FsError ℕ × FsService :=
  if ino = rootIno ∨ ino = metadataIno ∨ ino = dataIno then (.ok 0, s)
  else if ino = statsIno ∨ isStatsIno ino then (.ok s.inodeMgr.nextFh, s.addHandle ino)
  else if isDataIno ino then
    match s.inodeMgr.dataInodes.get ino with
    | some (.torrentFile ..) => (.ok s.inodeMgr.nextFh, s.addHandle ino)
    | _ => (.ok 0, s)
  else if s.inodes.contains ino then (.ok s.inodeMgr.nextFh, s.addHandle ino)
  else (.error .notFound, s)

lemma openFile_cases (s : FsService) (ino : ℕ) :
    (s.openFile ino).2 = s ∨ (s.openFile ino).2 = s.addHandle ino := by
  unfold openFile
  repeat' split
  all_goals first | exact .inl rfl | exact .inr rfl

def spliced (fileData : List UInt8) (offset : ℕ) (data : List UInt8) : List UInt8 :=
  let last := offset + data.length
  -- both `resize` calls fill with zeros, up to the end of the write
  let grown := fileData ++ List.replicate (last - fileData.length) 0
  grown.take offset ++ data ++ grown.drop last

def write (s : FsService) (ino : ℕ) (offset : ℤ) (data : List UInt8) :
    Except FsError ℕ × FsService :=
  if ino = statsIno ∨ isStatsIno ino then (.error .notPermitted, s)
  else if isDataNamespace ino then (.error .readOnlyFileSystem, s)
  else
    match s.inodes.get ino with
    | some (.file parent name fileData unlinked) =>
      let last := offset.toNat + data.length
      if offset < 0 then (.error .invalidArgument, s)
      else if u64Max < last then
        (.error (.fileTooLarge (name ++ ": write at offset ".toList ++ (toString offset).toList ++
          " + ".toList ++ (toString data.length).toList ++ " bytes overflows usize".toList)), s)
      else if maxTorrentSize < last then
        (.error (.fileTooLarge (name ++ " exceeds ".toList ++ (toString maxTorrentSize).toList ++
          " bytes".toList)), s)
      else
        (.ok data.length, s.setInodes (s.inodes.insert ino
          (.file parent name (spliced fileData offset.toNat data) unlinked)))
    | some (.directory _ _) => (.error .isDirectory, s)
    | none => (.error .notFound, s)

lemma write_cases (s : FsService) (ino : ℕ) (offset : ℤ) (data : List UInt8) :
    (∃ e, s.write ino offset data = (.error e, s)) ∨
      ∃ parent name fileData unlinked, ino ≠ statsIno ∧
        s.inodes.get ino = some (.file parent name fileData unlinked) ∧
        s.write ino offset data = (.ok data.length, s.setInodes (s.inodes.insert ino
          (.file parent name (spliced fileData offset.toNat data) unlinked))) := by
  unfold write
  split
  · exact .inl ⟨_, rfl⟩
  next hstats =>
  split
  · exact .inl ⟨_, rfl⟩
  split
  · next parent name fileData unlinked hget =>
    dsimp only
    split
    · exact .inl ⟨_, rfl⟩
    split
    · exact .inl ⟨_, rfl⟩
    split
    · exact .inl ⟨_, rfl⟩
    · exact .inr ⟨parent, name, fileData, unlinked, fun heq => hstats (.inl heq), hget, rfl⟩
  · exact .inl ⟨_, rfl⟩
  · exact .inl ⟨_, rfl⟩

def resized (data : List UInt8) (size : ℕ) : List UInt8 :=
  data.take size ++ List.replicate (size - data.length) 0

def setattr (s : FsService) (ino size : ℕ) : Except FsError Unit × FsService :=
  if ino = statsIno ∨ isStatsIno ino then (.error .notPermitted, s)
  else if isDataNamespace ino then (.error .readOnlyFileSystem, s)
  else if isMetadataChild s.inodes ino || ino = rootIno then
    match s.inodes.get ino with
    | some (.file parent name data unlinked) =>
      if maxTorrentSize < size then
        (.error (.fileTooLarge ("truncate ".toList ++ name ++ " to ".toList ++
          (toString size).toList ++ " bytes exceeds limit ".toList ++
          (toString maxTorrentSize).toList)), s)
      else (.ok (), s.setInodes (s.inodes.insert ino
        (.file parent name (resized data size) unlinked)))
    | _ => (.error .notPermitted, s)
  else if s.inodes.contains ino then (.ok (), s) else (.error .notFound, s)

/-! ### Pending additions -/

def waitForPendingAdd (s : FsService) (key : Str × Str) (op : String) : Except FsError Unit :=
  if key ∈ s.processingTorrents then
    .error (.internal ("torrent is still being processed; retry the ".toList ++ op.toList))
  else .ok ()

def torrentOf : DataInode → Option ℕ
  | .sourcePathDir _ => none
  | .torrentRoot torrentId .. => some torrentId
  | .torrentDir torrentId .. => some torrentId
  | .torrentFile torrentId .. => some torrentId

def cleanupRemovedTorrentDataState (s : FsService) (torrentId : ℕ) (sourcePath filename : Str) :
    FsService :=
  { s.setDataInodes (s.inodeMgr.dataInodes.retain fun d => torrentOf d ≠ some torrentId) with
    processingTorrents := s.processingTorrents.erase (sourcePath, filename) }

def removeTorrentAndDataState (s : FsService) (f : DbFaults) (sourcePath filename : Str) :
    Except FsError (Option ℕ) × FsService :=
  if s.torrentService then
    match s.names.torrents.removeTorrent f.fault f.checkFails filename sourcePath with
    | (.error e, _, _) => (.error (.database e), s)
    | (.ok none, _, _) => (.ok none, s)
    | (.ok (some (id, _)), _, torrents) =>
      (.ok (some id), (s.setTorrents torrents).cleanupRemovedTorrentDataState id sourcePath
        filename)
  else (.ok none, s)

def discard (s : FsService) (f : DbFaults) (ino : ℕ) (key : Str × Str)
    (result : Except FsError Unit) : Except FsError Unit × FsService :=
  match s.waitForPendingAdd key "release" with
  | .error e => (.error e, s)
  | .ok () =>
    match s.removeTorrentAndDataState f key.1 key.2 with
    | (.error e, s) => (.error e, s)
    | (.ok _, s) => (result, s.setInodes (s.inodes.erase ino))

/-- `release` of a file with a valid torrent: a thread starts to persist it, unless one is at work
on the name. -/
def startPersist (s : FsService) (key : Str × Str) (data : List UInt8) : FsService :=
  if key ∈ s.processingTorrents then s
  else if s.torrentService then
    { s with
      processingTorrents := insert key s.processingTorrents
      threads := s.threads ++ [⟨key, data, false⟩] }
  else s

def release (lib : Libraries) (s : FsService) (f : DbFaults) (fh : ℕ) :
    Except FsError Unit × FsService :=
  match s.inodeMgr.openFiles.get fh with
  | none => (.ok (), s)
  | some ino =>
    let s := { s with inodeMgr := { s.inodeMgr with
      openFiles := s.inodeMgr.openFiles.erase fh } }
    if isUnlinkedFile s.inodes ino then
      (.ok (), if s.inodeMgr.openHandleCount ino = 0 then s.setInodes (s.inodes.erase ino) else s)
    else
      match s.inodes.get ino with
      | some (.file parent name data _) =>
        if isTorrentName name then
          let key := (extractSourcePath s.inodes parent, name)
          if data = [] then s.discard f ino key (.error .notFound)
          else if maxTorrentSize < data.length then s.discard f ino key (.ok ())
          else if (lib.parse data).isNone then s.discard f ino key (.ok ())
          else (.ok (), s.startPersist key data)
        else (.ok (), s)
      | _ => (.ok (), s)

def unlink (s : FsService) (f : DbFaults) (parent : ℕ) (name : Str) :
    Except FsError (Option ℕ) × FsService :=
  if name = ".stats".toList then (.error .notPermitted, s)
  else if isDataNamespace parent then (.error .readOnlyFileSystem, s)
  else if !isMetadataChild s.inodes parent then (.error .permissionDenied, s)
  else if !isTorrentName name then (.error .invalidArgument, s)
  else
    match findChildByName s.inodes parent name with
    | none => (.error .notFound, s)
    | some ino =>
      match s.inodes.get ino with
      | some (.file fileParent filename _ _) =>
        let sourcePath := extractSourcePath s.inodes fileParent
        if s.torrentService then
          match s.waitForPendingAdd (sourcePath, filename) "unlink" with
          | .error e => (.error e, s)
          | .ok () =>
            match s.removeTorrentAndDataState f sourcePath filename with
            | (.error e, s) => (.error e, s)
            | (.ok removed, s) => (.ok removed, s.setInodes (s.inodeMgr.unlinkFile ino))
        else (.ok none, s.setInodes (s.inodeMgr.unlinkFile ino))
      | some (.directory _ _) => (.error .isDirectory, s)
      | none => (.error .notFound, s)

def keepsAfterRmdir (sourcePath : Str) : DataInode → Bool
  | .sourcePathDir path =>
    if path = sourcePath then false
    else if sourcePath = [] then true
    else !(pathPrefix sourcePath).isPrefixOf path
  | _ => true

def rmdir (s : FsService) (f : DbFaults) (parent : ℕ) (name : Str) :
    Except FsError Unit × FsService :=
  if isDataNamespace parent then (.error .readOnlyFileSystem, s)
  else if !isMetadataChild s.inodes parent then (.error .permissionDenied, s)
  else
    match findChildByName s.inodes parent name with
    | none => (.error .notFound, s)
    | some ino =>
      match s.inodes.get ino with
      | some (.directory _ _) =>
        if ∃ i ∈ s.inodes.keys, (s.inodes.get i).any fun d => d.parent = ino && d.linked then
          (.error .directoryNotEmpty, s)
        else
          let sourcePath := extractSourcePath s.inodes ino
          let after := (s.setInodes (s.inodes.erase ino)).setDataInodes
            (s.inodeMgr.dataInodes.retain (keepsAfterRmdir sourcePath))
          (.ok (), if s.torrentService && f.fault.isNone then
              { after with names := { after.names with
                  directories := after.names.directories.deleteMetadataDirectory sourcePath } }
            else after)
      | some (.file _ _ _ _) => (.error .notDirectory, s)
      | none => (.error .notFound, s)

/-! ### Renames -/

def moveDataInode (oldPath newPath : Str) : DataInode → DataInode
  | .sourcePathDir path => .sourcePathDir (renamedPath oldPath newPath path)
  | .torrentRoot id sourcePath name filename =>
    .torrentRoot id (renamedPath oldPath newPath sourcePath) name filename
  | d => d

def renameDirectory (s : FsService) (f : DbFaults) (sourceIno newparent : ℕ) (newname : Str) :
    Except FsError Unit × FsService :=
  let oldSourcePath := extractSourcePath s.inodes sourceIno
  let newSourcePath := childSourcePath s.inodes newparent newname
  let moved :=
    (s.setInodes (s.inodes.insert sourceIno (.directory newparent newname))).setDataInodes
    (s.inodeMgr.dataInodes.mapValues (moveDataInode oldSourcePath newSourcePath))
  if s.torrentService then
    match s.names.renameMetadataDirectory f.fault oldSourcePath newname newSourcePath with
    | (.error e, _) => (.error (.database e), moved)
    | (.ok (), names) => (.ok (), { moved with names })
  else (.ok (), moved)

def keepsAfterRename (oldSourcePath newSourcePath oldName : Str) : DataInode → Bool
  | .torrentRoot _ sourcePath _ filename =>
    if oldSourcePath ≠ newSourcePath then sourcePath ≠ oldSourcePath
    else !(sourcePath = oldSourcePath && filename = oldName)
  | _ => true

def evictRoots (s : FsService) (oldSourcePath newSourcePath oldName : Str) : FsService :=
  s.setDataInodes
    (s.inodeMgr.dataInodes.retain (keepsAfterRename oldSourcePath newSourcePath oldName))

def renameTorrentByName (t : TorrentTables) (fault : Option SqlError)
    (oldName oldSourcePath newName newSourcePath : Str) : Except SqlError Unit × TorrentTables :=
  match fault with
  | some e => (.error e, t)
  | none =>
    match t.sourceAt oldSourcePath oldName with
    | none => (.ok (), t)
    | some source => t.renameTorrent none source.id newName newSourcePath

def retireTarget (s : FsService) (targetIno : ℕ) (removed : Option (ℕ × Str))
    (sourcePath filename : Str) : FsService :=
  let s := s.setInodes (s.inodeMgr.unlinkFile targetIno)
  match removed with
  | none => s
  | some (id, _) => s.cleanupRemovedTorrentDataState id sourcePath filename

/-- `rename` of a file, from the wait for the source on. `moved` is the service with the inode under
its new name, `s` the one before. -/
def renameInDatabase (s moved : FsService) (f : DbFaults) (target : Option ℕ)
    (oldSourcePath oldName newSourcePath newname : Str) : Except FsError Unit × FsService :=
  match s.waitForPendingAdd (oldSourcePath, oldName) "rename" with
  | .error e => (.error e, s)
  | .ok () =>
    match target with
    | some targetIno =>
      match s.waitForPendingAdd (newSourcePath, newname) "rename" with
      | .error e => (.error e, s)
      | .ok () =>
        match s.names.torrents.renameTorrentOverwriting f.fault f.checkFails oldName
            oldSourcePath newname newSourcePath with
        | (.error e, _, _) => (.error (.database e), s)
        | (.ok .sourceAbsent, _, _) =>
          (.error (.internal ("cannot rename '".toList ++ oldName ++
            "': torrent has no persisted row".toList)), s)
        | (.ok (.moved removed), _, torrents) =>
          (.ok (), (((moved.setTorrents torrents).ensureDirectories f
            newSourcePath).retireTarget targetIno removed newSourcePath newname).evictRoots
            oldSourcePath newSourcePath oldName)
    | none =>
      match renameTorrentByName s.names.torrents f.fault oldName oldSourcePath newname
          newSourcePath with
      -- the new name stays in the tree
      | (.error e, _) => (.error (.database e), moved)
      | (.ok (), torrents) =>
        let after := moved.setTorrents torrents
        -- without a row there is nothing to rename, and no directory to create
        let after := if (s.names.torrents.sourceAt oldSourcePath oldName).isSome then
          after.ensureDirectories f newSourcePath else after
        (.ok (), after.evictRoots oldSourcePath newSourcePath oldName)

def renameFile (s : FsService) (f : DbFaults) (sourceIno parent : ℕ) (name : Str)
    (newparent : ℕ) (newname : Str) (target : Option ℕ) : Except FsError Unit × FsService :=
  if !isTorrentName name || !isTorrentName newname then (.error .invalidArgument, s)
  else
    match s.inodes.get sourceIno with
    | some (.file _ oldName data wasUnlinked) =>
      let moved := s.setInodes
        (s.inodes.insert sourceIno (.file newparent newname data wasUnlinked))
      -- what the error exits put back
      let restored := s.setInodes (moved.inodes.insert sourceIno
        (.file parent oldName data wasUnlinked))
      if s.torrentService then
        restored.renameInDatabase moved f target (extractSourcePath moved.inodes parent) oldName
          (extractSourcePath moved.inodes newparent) newname
      else
        (.ok (), match target with
          | some targetIno => moved.setInodes (moved.inodeMgr.unlinkFile targetIno)
          | none => moved)
    | _ => (.error .notFound, s)

def rename (s : FsService) (f : DbFaults) (parent : ℕ) (name : Str) (newparent : ℕ)
    (newname : Str) : Except FsError Unit × FsService :=
  if isDataNamespace parent || isDataNamespace newparent then (.error .readOnlyFileSystem, s)
  else if !(s.inodes.contains parent || s.inodeMgr.dataInodes.contains parent) then
    (.error .notFound, s)
  else if !(s.inodes.contains newparent || s.inodeMgr.dataInodes.contains newparent) then
    (.error .notFound, s)
  else if !isMetadataChild s.inodes parent || !isMetadataChild s.inodes newparent then
    (.error .notPermitted, s)
  else
    match findChildByName s.inodes parent name with
    | none => (.error .notFound, s)
    | some sourceIno =>
      let sourceIsFile := (s.inodes.get sourceIno).any InodeData.isFile
      match findChildByName s.inodes newparent newname with
      | some targetIno =>
        if targetIno = sourceIno then (.ok (), s)
        else if sourceIsFile && (s.inodes.get targetIno).any InodeData.isFile then
          s.renameFile f sourceIno parent name newparent newname (some targetIno)
        else (.error .alreadyExists, s)
      | none =>
        if sourceIsFile then s.renameFile f sourceIno parent name newparent newname none
        else s.renameDirectory f sourceIno newparent newname

/-! ### Threads -/

def persistStep (lib : Libraries) (s : FsService) (f : DbFaults) (i : ℕ) : Option FsService :=
  match s.threads[i]? with
  | some ⟨key, data, false⟩ =>
    let (persisted, torrents) := persistTorrent lib f.fault data key.1 key.2 s.names.torrents
    let s := { s.setTorrents torrents with threads := s.threads.set i ⟨key, data, true⟩ }
    some (if persisted.isSome then s.ensureDirectories f key.1 else s)
  | _ => none

def finishStep (s : FsService) (i : ℕ) : Option FsService :=
  match s.threads[i]? with
  | some ⟨key, _, true⟩ =>
    some { s with
      processingTorrents := s.processingTorrents.erase key
      threads := s.threads.eraseIdx i }
  | _ => none

lemma inodeMgr_persistStep {lib : Libraries} {s s' : FsService} {f : DbFaults} {i : ℕ}
    (h : s.persistStep lib f i = some s') : s'.inodeMgr = s.inodeMgr := by
  unfold persistStep at h
  split at h
  · next key data _ =>
    dsimp only at h
    by_cases hsome : (persistTorrent lib f.fault data key.1 key.2 s.names.torrents).1.isSome = true
    · rw [if_pos hsome, Option.some.injEq] at h
      subst h
      rfl
    · rw [if_neg hsome, Option.some.injEq] at h
      subst h
      rfl
  · cases h

lemma inodeMgr_finishStep {s s' : FsService} {i : ℕ} (h : s.finishStep i = some s') :
    s'.inodeMgr = s.inodeMgr := by
  unfold finishStep at h
  split at h
  · cases h
    rfl
  · cases h

end FsService

/-- A call of the dispatcher, or a step of a thread. -/
inductive FsAction
  | mknod (parent : ℕ) (name : Str)
  | create (parent : ℕ) (name : Str)
  | mkdir (f : DbFaults) (parent : ℕ) (name : Str)
  | openFile (ino : ℕ)
  | write (ino : ℕ) (offset : ℤ) (data : List UInt8)
  | setattr (ino size : ℕ)
  | release (f : DbFaults) (fh : ℕ)
  | unlink (f : DbFaults) (parent : ℕ) (name : Str)
  | rmdir (f : DbFaults) (parent : ℕ) (name : Str)
  | rename (f : DbFaults) (parent : ℕ) (name : Str) (newparent : ℕ) (newname : Str)
  | persist (f : DbFaults) (thread : ℕ)
  | finish (thread : ℕ)

namespace FsService

def step (lib : Libraries) (s : FsService) : FsAction → Option FsService
  | .mknod parent name => some (s.mknod parent name).2
  | .create parent name => some (s.create parent name).2
  | .mkdir f parent name => some (s.mkdir f parent name).2
  | .openFile ino => some (s.openFile ino).2
  | .write ino offset data => some (s.write ino offset data).2
  | .setattr ino size => some (s.setattr ino size).2
  | .release f fh => some (s.release lib f fh).2
  | .unlink f parent name => some (s.unlink f parent name).2
  | .rmdir f parent name => some (s.rmdir f parent name).2
  | .rename f parent name newparent newname => some (s.rename f parent name newparent newname).2
  | .persist f i => s.persistStep lib f i
  | .finish i => s.finishStep i

def noFaults : DbFaults := ⟨none, false, 1⟩

def new : FsService where
  inodeMgr := InodeManager.new
  torrentService := true
  names := ⟨TorrentTables.empty, AutoTable.empty⟩
  processingTorrents := ∅
  threads := []

end FsService

end TorrentFs.Fuse
