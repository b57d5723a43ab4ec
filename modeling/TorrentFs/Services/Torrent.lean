import TorrentFs.Db.References
import TorrentFs.Cache.Accounting

/-!
# Persisting and removing torrents

`TorrentService` inserts or deletes rows under the database lock; what follows, the release of an
engine handle, the removal of a piece directory, the drop of the cache state and the registration
of a handle, happens step by step after the lock has been given back. A thread that still has such
steps to do is a `Task`; any number of them run beside each other. Handles are released and added
by the engine thread, which takes the commands the tasks send from a queue. A run of `PurgeSystem`
is an interleaving of the steps of the tasks and of the engine.
-/

namespace TorrentFs.Services

open Text Sql Db Cache List TorrentTables

structure TorrentMetadata where
  name : Str
  totalSize : ℤ
  infoHash : Str
  numFiles : ℤ
  files : List FileEntry

/-- What the code asks of the libraries: the metadata of a torrent file, `none` when libtorrent
rejects it, and the hash of its bytes. -/
structure Libraries where
  parse : List UInt8 → Option TorrentMetadata
  contentHash : List UInt8 → Str

structure PersistedTorrent where
  infoHash : Str
  isNew : Bool
  staleInfoHash : Option Str
deriving DecidableEq

def TorrentMetadata.toNew (m : TorrentMetadata) (data : List UInt8) (sourcePath filename : Str) :
    NewTorrent where
  sourcePath
  name := m.name
  filename
  totalSize := m.totalSize
  infoHash := m.infoHash
  fileCount := m.numFiles
  files := m.files
  data := some data

def persistTorrent (lib : Libraries) (fault : Option SqlError) (data : List UInt8)
    (sourcePath filename : Str) (t : TorrentTables) : Option PersistedTorrent × TorrentTables :=
  match lib.parse data with
  | none => (none, t)
  | some m =>
    match t.insertTorrent lib.contentHash fault (m.toNew data sourcePath filename) with
    | (.error _, t) => (none, t)
    | (.ok outcome, t) => (some ⟨m.infoHash, !outcome.sourceReused, outcome.staleInfoHash⟩, t)

/-- What `persist_torrent` does to the rows. -/
structure PersistSpec (lib : Libraries) (t : TorrentTables)
    (persisted : Option PersistedTorrent) (t' : TorrentTables) : Prop where
  sound : t'.Sound lib.contentHash
  contents : ∀ c ∈ t'.contents, c ∈ t.contents ∨
    ∃ p, persisted = some p ∧ c.infoHash = p.infoHash
  stale : ∀ p, persisted = some p → ∀ infoHash, p.staleInfoHash = some infoHash →
    TorrentTables.Released t t' infoHash

lemma persistTorrent_spec (lib : Libraries) {t : TorrentTables}
    (h : t.Sound lib.contentHash) (fault : Option SqlError) (data : List UInt8)
    (sourcePath filename : Str) :
    PersistSpec lib t (persistTorrent lib fault data sourcePath filename t).1
      (persistTorrent lib fault data sourcePath filename t).2 := by
  unfold persistTorrent
  cases hparse : lib.parse data with
  | none => exact ⟨h, fun c hc => .inl hc, fun p hp => by cases hp⟩
  | some m =>
    obtain ⟨hsound, hreported, -⟩ := sound_insertTorrent h fault
      (m.toNew data sourcePath filename) rfl
    have hcontents := fun c (hc : c ∈ (t.insertTorrent lib.contentHash fault
      (m.toNew data sourcePath filename)).2.contents) => mem_contents_insertTorrent hc
    dsimp only
    unfold insertTorrent at hsound hreported hcontents ⊢
    rcases transaction_cases fault
      (insertBody lib.contentHash (m.toNew data sourcePath filename)) t with
      ⟨e, heq⟩ | ⟨outcome, t', -, heq⟩
    · rw [heq]
      exact ⟨h, fun c hc => .inl hc, fun p hp => by cases hp⟩
    · rw [heq] at hsound hreported hcontents ⊢
      refine ⟨hsound, fun c hc => (hcontents c hc).imp_right fun hrow => ⟨_, rfl, hrow.1⟩,
        fun p hp infoHash hstale => ?_⟩
      cases hp
      exact hreported infoHash hstale

lemma holdings_persistTorrent {lib : Libraries} {t : TorrentTables}
    (h : t.Sound lib.contentHash) {fault : Option SqlError} {data : List UInt8}
    {sourcePath filename : Str}
    (hsome : (persistTorrent lib fault data sourcePath filename t).1.isSome = true) :
    ∃ c, c.torrentData = some data ∧
      (persistTorrent lib fault data sourcePath filename t).2.holdings =
        Function.update t.holdings (sourcePath, filename) (some c) := by
  unfold persistTorrent at hsome ⊢
  cases hparse : lib.parse data with
  | none => simp [hparse] at hsome
  | some m =>
    simp only [hparse] at hsome
    dsimp only
    unfold insertTorrent at hsome ⊢
    rcases transaction_cases fault
      (insertBody lib.contentHash (m.toNew data sourcePath filename)) t with
      ⟨e, heq⟩ | ⟨outcome, t', hbody, heq⟩
    · rw [heq] at hsome
      cases hsome
    · rw [heq]
      obtain ⟨-, ⟨c, hbytes, hholdings⟩, -⟩ := insertBody_eq_ok h rfl hbody
      exact ⟨c, hbytes, hholdings⟩

def hasPiecesDir (infoHash : Str) : Bool :=
  infoHash ≠ [] ∧ '/' ∉ infoHash ∧ infoHash ≠ ['.'] ∧ infoHash ≠ ['.', '.']

def removePieces (d : Disk) (infoHash : Str) : Disk where
  file := fun key => if CacheManager.ofInfohash infoHash key then none else d.file key
  marker := fun key => !CacheManager.ofInfohash infoHash key && d.marker key

/-- The steps of a purge that are still to be done, from the next one on. -/
inductive PurgeStage
  | release
  | resolveDir
  | removeDir
  | dropState
deriving DecidableEq

/-- What a thread has still to do: a purge, then the registration of a handle for the torrent it
has persisted. -/
inductive Task
  | purging (infoHash : Str) (stage : PurgeStage) (next : Option PersistedTorrent)
  | registering (persisted : PersistedTorrent)
deriving DecidableEq

def Task.register (persisted : PersistedTorrent) : Task :=
  match persisted.staleInfoHash with
  | some old => .purging old .release (some persisted)
  | none => .registering persisted

/-- The info hash whose handle or directory the task has still to dispose of. -/
def Task.disposing : Task → Option Str
  | .purging infoHash .release _ | .purging infoHash .resolveDir _
  | .purging infoHash .removeDir _ => some infoHash
  | .purging _ .dropState _ | .registering _ => none

def Task.afterPurge (next : Option PersistedTorrent) : List Task :=
  next.toList.map .registering

/-- The commands of the engine that concern whether it has a handle for an info hash. -/
inductive HandleCommand
  | removeHandle (infoHash : Str)
  | ensureHandleAsync (infoHash : Str)
deriving DecidableEq

/-- The database, the engine thread, the cache and the tasks. -/
structure PurgeSystem where
  tables : TorrentTables
  -- the info hashes for which the engine has a handle
  handles : Finset Str
  -- what has been sent to the engine thread and not yet been executed
  commands : List HandleCommand
  -- the info hashes that have a directory below `pieces/`
  piecesDirs : Finset Str
  cache : CacheManager
  tasks : List Task

/-- A step of the system. Where an operation outside the database may fail, `ok` tells whether it
succeeds. -/
inductive PurgeAction
  | persist (fault : Option SqlError) (data : List UInt8) (sourcePath filename : Str)
  | remove (fault : Option SqlError) (checkFails : Bool) (filename sourcePath : Str)
  | move (fault : Option SqlError) (checkFails : Bool)
      (oldName oldSourcePath newName newSourcePath : Str)
  | advance (task : ℕ) (ok : Bool)
  /-- The engine thread executes the next command. -/
  | execute (ok : Bool)
  /-- libtorrent creates a directory when it writes a piece. -/
  | createDir (infoHash : Str)
  | useCache (op : CacheOp)

namespace PurgeSystem

def advance (s : PurgeSystem) (ok : Bool) : Task → PurgeSystem × List Task
  | .purging infoHash .release next =>
    -- `remove_handle` only sends the command
    (if ok then { s with commands := s.commands ++ [.removeHandle infoHash] } else s,
      [.purging infoHash .resolveDir next])
  | .purging infoHash .resolveDir next =>
    (s, if hasPiecesDir infoHash then [.purging infoHash .removeDir next]
      else Task.afterPurge next)
  | .purging infoHash .removeDir next =>
    if ok then
      ({ s with
          piecesDirs := s.piecesDirs.erase infoHash
          cache := { s.cache with cacheDir := removePieces s.cache.cacheDir infoHash } },
        [.purging infoHash .dropState next])
    else (s, Task.afterPurge next)
  | .purging infoHash .dropState next =>
    -- `drop_infohash_state_if_absent`
    (if infoHash ∈ s.piecesDirs then s
      else { s with cache := s.cache.dropInfohashState infoHash }, Task.afterPurge next)
  | .registering persisted =>
    (if persisted.isNew && ok then
        { s with commands := s.commands ++ [.ensureHandleAsync persisted.infoHash] }
      else s, [])

def execute (s : PurgeSystem) (ok : Bool) : HandleCommand → PurgeSystem
  | .removeHandle infoHash => { s with handles := s.handles.erase infoHash }
  | .ensureHandleAsync infoHash =>
    if infoHash ∉ s.handles ∧ ok then
      { s with
        handles := insert infoHash s.handles
        piecesDirs := insert infoHash s.piecesDirs }
    else s

def startPurge (s : PurgeSystem) (purge : Option Str) : PurgeSystem :=
  { s with tasks := s.tasks ++ purge.toList.map fun infoHash => .purging infoHash .release none }

def step (lib : Libraries) (s : PurgeSystem) : PurgeAction → Option PurgeSystem
  | .persist fault data sourcePath filename =>
    let (persisted, tables) := persistTorrent lib fault data sourcePath filename s.tables
    some { s with tables, tasks := s.tasks ++ persisted.toList.map Task.register }
  | .remove fault checkFails filename sourcePath =>
    let (_, purge, tables) := s.tables.removeTorrent fault checkFails filename sourcePath
    some (startPurge { s with tables } purge)
  | .move fault checkFails oldName oldSourcePath newName newSourcePath =>
    let (_, purge, tables) := s.tables.renameTorrentOverwriting fault checkFails oldName
      oldSourcePath newName newSourcePath
    some (startPurge { s with tables } purge)
  | .advance i ok =>
    match s.tasks[i]? with
    | none => none
    | some task =>
      let (s', rest) := s.advance ok task
      some { s' with tasks := s.tasks.eraseIdx i ++ rest }
  | .execute ok =>
    match s.commands with
    | [] => none
    | command :: commands => some { s.execute ok command with commands }
  | .createDir infoHash => some { s with piecesDirs := insert infoHash s.piecesDirs }
  | .useCache op => (s.cache.step op).map fun cache => { s with cache }

/-- The step releases the handle or removes the directory of the info hash. -/
def Disposes (s : PurgeSystem) (infoHash : Str) : PurgeAction → Prop
  | .advance i _ => ∃ next, s.tasks[i]? = some (.purging infoHash .removeDir next)
  | .execute _ => s.commands.head? = some (.removeHandle infoHash)
  | _ => False

/-- Nothing is disposed of while a row refers to it. -/
def Safe (s : PurgeSystem) (a : PurgeAction) : Prop :=
  ∀ infoHash, s.Disposes infoHash a → ¬ s.tables.Referenced infoHash

/-- A purge of the info hash has been decided on, and its directory has not been removed or the
engine has not yet executed the release of its handle. -/
def Purges (s : PurgeSystem) (infoHash : Str) : Prop :=
  (∃ task ∈ s.tasks, task.disposing = some infoHash) ∨ .removeHandle infoHash ∈ s.commands

/-- No row is inserted for an info hash while a purge of it is under way. -/
def Undisturbed (lib : Libraries) (s : PurgeSystem) : PurgeAction → Prop
  | .persist fault data sourcePath filename => ∀ persisted,
      (persistTorrent lib fault data sourcePath filename s.tables).1 = some persisted →
      ¬ s.Purges persisted.infoHash
  | _ => True

/-- The tables are sound, and no row refers to an info hash that is being purged. -/
structure Purgeable (lib : Libraries) (s : PurgeSystem) : Prop where
  sound : s.tables.Sound lib.contentHash
  unreferenced : ∀ infoHash, s.Purges infoHash → ¬ s.tables.Referenced infoHash

section Steps

variable {lib : Libraries} {s s' : PurgeSystem}

lemma purges_append {tables : TorrentTables} {new : List Task} {infoHash : Str}
    (h : Purges { s with tables, tasks := s.tasks ++ new } infoHash) :
    s.Purges infoHash ∨ ∃ task ∈ new, task.disposing = some infoHash := by
  obtain ⟨task, htask, hdisposing⟩ | hcommand := h
  · rcases List.mem_append.mp htask with htask | htask
    · exact .inl (.inl ⟨task, htask, hdisposing⟩)
    · exact .inr ⟨task, htask, hdisposing⟩
  · exact .inl (.inr hcommand)

lemma Purgeable.extend (h : Purgeable lib s) {tables : TorrentTables} {new : List Task}
    (hsound : tables.Sound lib.contentHash)
    (hold : ∀ infoHash, s.Purges infoHash → tables.Referenced infoHash →
      s.tables.Referenced infoHash)
    (hnew : ∀ task ∈ new, ∀ infoHash, task.disposing = some infoHash →
      ¬ tables.Referenced infoHash) :
    Purgeable lib { s with tables, tasks := s.tasks ++ new } where
  sound := hsound
  unreferenced := by
    intro infoHash hpurges href
    rcases purges_append hpurges with hpurges | ⟨task, htask, hdisposing⟩
    · exact h.unreferenced infoHash hpurges (hold infoHash hpurges href)
    · exact hnew task htask infoHash hdisposing href

lemma disposing_startPurge {purge : Option Str} {task : Task} {infoHash : Str}
    (htask : task ∈ purge.toList.map fun infoHash => Task.purging infoHash .release none)
    (hdisposing : task.disposing = some infoHash) : purge = some infoHash := by
  obtain ⟨infoHash', hmem, rfl⟩ := List.mem_map.mp htask
  obtain rfl : infoHash' = infoHash := Option.some.inj hdisposing
  exact Option.mem_toList.mp hmem

lemma disposing_register {persisted : PersistedTorrent} {infoHash : Str}
    (h : (Task.register persisted).disposing = some infoHash) :
    persisted.staleInfoHash = some infoHash := by
  unfold Task.register at h
  split at h
  · next old hstale => exact hstale.trans h
  · cases h

lemma disposing_advance {ok : Bool} {task rest : Task} {infoHash : Str}
    (hrest : rest ∈ (s.advance ok task).2) (h : rest.disposing = some infoHash) :
    task.disposing = some infoHash := by
  have hregister : ∀ next : Option PersistedTorrent, rest ∉ Task.afterPurge next := by
    intro next hmem
    obtain ⟨persisted, -, rfl⟩ := List.mem_map.mp hmem
    cases h
  unfold advance at hrest
  split at hrest
  · obtain rfl := List.mem_singleton.mp hrest
    exact h
  · dsimp only at hrest
    split at hrest
    · obtain rfl := List.mem_singleton.mp hrest
      exact h
    · exact absurd hrest (hregister _)
  · split at hrest
    · obtain rfl := List.mem_singleton.mp hrest
      cases h
    · exact absurd hrest (hregister _)
  · exact absurd hrest (hregister _)
  · cases hrest

lemma tables_advance (s : PurgeSystem) (ok : Bool) (task : Task) :
    (s.advance ok task).1.tables = s.tables := by
  unfold advance
  split
  · dsimp only
    split <;> rfl
  · rfl
  · split <;> rfl
  · dsimp only
    split <;> rfl
  · dsimp only
    split <;> rfl

lemma execute_frame (s : PurgeSystem) (ok : Bool) (command : HandleCommand) :
    (s.execute ok command).tables = s.tables ∧ (s.execute ok command).tasks = s.tasks := by
  cases command with
  | removeHandle infoHash => exact ⟨rfl, rfl⟩
  | ensureHandleAsync infoHash =>
    dsimp only [execute]
    split <;> exact ⟨rfl, rfl⟩

/-- A task sends the release only of the info hash it is purging. -/
lemma removeHandle_advance {ok : Bool} {task : Task} {infoHash : Str}
    (h : .removeHandle infoHash ∈ (s.advance ok task).1.commands) :
    .removeHandle infoHash ∈ s.commands ∨ task.disposing = some infoHash := by
  unfold advance at h
  split at h
  · dsimp only at h
    split at h
    · rcases List.mem_append.mp h with h | h
      · exact .inl h
      · cases List.mem_singleton.mp h
        exact .inr rfl
    · exact .inl h
  · exact .inl h
  · split at h <;> exact .inl h
  · dsimp only at h
    split at h <;> exact .inl h
  · dsimp only at h
    split at h
    · rcases List.mem_append.mp h with h | h
      · exact .inl h
      · cases List.mem_singleton.mp h
    · exact .inl h

section

variable (h : Purgeable lib s)
include h

lemma Purgeable.persist {fault : Option SqlError} {data : List UInt8} {sourcePath filename : Str}
    (hundisturbed : Undisturbed lib s (.persist fault data sourcePath filename)) :
    let (persisted, tables) := persistTorrent lib fault data sourcePath filename s.tables
    Purgeable lib { s with tables, tasks := s.tasks ++ persisted.toList.map Task.register } := by
  have hspec := persistTorrent_spec lib h.sound fault data sourcePath filename
  refine h.extend hspec.sound (fun infoHash hpurges href => ?_)
    fun task htask infoHash hdisposing => ?_
  · -- a row of another info hash refers to a content that was there before
    obtain ⟨c, hc, rfl⟩ := hspec.sound.referenced_iff.mp href
    rcases hspec.contents c hc with hc | ⟨persisted, hpersisted, hhash⟩
    · exact h.sound.referenced_iff.mpr ⟨c, hc, rfl⟩
    · exact absurd (hhash ▸ hpurges) (hundisturbed persisted hpersisted)
  · obtain ⟨persisted, hpersisted, rfl⟩ := List.mem_map.mp htask
    exact (hspec.stale persisted (Option.mem_toList.mp hpersisted) infoHash
      (disposing_register hdisposing)).2

lemma Purgeable.startPurge {tables : TorrentTables} {purge : Option Str} {checkFails : Bool}
    (hsound : tables.Sound lib.contentHash ∧
      TorrentTables.ReportsReleased s.tables tables checkFails purge)
    (hcontents : ∀ c ∈ tables.contents, c ∈ s.tables.contents) :
    Purgeable lib (PurgeSystem.startPurge { s with tables } purge) := by
  refine h.extend hsound.1 (fun infoHash _ href => ?_) fun task htask infoHash hd => ?_
  · obtain ⟨c, hc, rfl⟩ := hsound.1.referenced_iff.mp href
    exact h.sound.referenced_iff.mpr ⟨c, hcontents c hc, rfl⟩
  · exact (hsound.2.1 infoHash (disposing_startPurge htask hd)).2

lemma Purgeable.advance {i : ℕ} {ok : Bool} {task : Task} (htask : s.tasks[i]? = some task) :
    Purgeable lib { (s.advance ok task).1 with
      tasks := s.tasks.eraseIdx i ++ (s.advance ok task).2 } where
  sound := (tables_advance s ok task).symm ▸ h.sound
  unreferenced := by
    intro infoHash hpurges
    rw [tables_advance]
    refine h.unreferenced infoHash ?_
    have hpurging : task.disposing = some infoHash → s.Purges infoHash :=
      fun hdisposing => .inl ⟨task, mem_of_getElem? htask, hdisposing⟩
    obtain ⟨other, hother, hdisposing⟩ | hcommand := hpurges
    · rcases List.mem_append.mp hother with hother | hother
      · exact .inl ⟨other, mem_of_mem_eraseIdx hother, hdisposing⟩
      · exact hpurging (disposing_advance hother hdisposing)
    · exact (removeHandle_advance hcommand).elim .inr hpurging

lemma Purgeable.execute {ok : Bool} {command : HandleCommand} {commands : List HandleCommand}
    (hcommands : s.commands = command :: commands) :
    Purgeable lib { s.execute ok command with commands } where
  sound := (execute_frame s ok command).1.symm ▸ h.sound
  unreferenced := by
    intro infoHash hpurges
    rw [(execute_frame s ok command).1]
    refine h.unreferenced infoHash ?_
    obtain ⟨task, htask, hdisposing⟩ | hcommand := hpurges
    · exact .inl ⟨task, (execute_frame s ok command).2 ▸ htask, hdisposing⟩
    · exact .inr (hcommands ▸ List.mem_cons_of_mem command hcommand)

lemma Purgeable.step {a : PurgeAction} (ha : Undisturbed lib s a)
    (hstep : PurgeSystem.step lib s a = some s') : Purgeable lib s' := by
  cases a with
  | persist fault data sourcePath filename =>
    cases hstep
    exact h.persist ha
  | remove fault checkFails filename sourcePath =>
    cases hstep
    exact h.startPurge (sound_removeTorrent h.sound fault checkFails filename
      sourcePath) fun c hc => mem_contents_removeTorrent hc
  | move fault checkFails oldName oldSourcePath newName newSourcePath =>
    cases hstep
    exact h.startPurge (sound_renameTorrentOverwriting h.sound fault checkFails
      oldName oldSourcePath newName newSourcePath)
      fun c hc => mem_contents_renameTorrentOverwriting hc
  | advance i ok =>
    simp only [PurgeSystem.step] at hstep
    split at hstep
    · cases hstep
    · next task htask =>
      cases hstep
      exact h.advance htask
  | execute ok =>
    simp only [PurgeSystem.step] at hstep
    split at hstep
    · cases hstep
    · next command commands hcommands =>
      cases hstep
      exact h.execute hcommands
  | createDir infoHash =>
    cases hstep
    exact ⟨h.sound, h.unreferenced⟩
  | useCache op =>
    obtain ⟨cache, -, rfl⟩ := Option.map_eq_some_iff.mp hstep
    exact ⟨h.sound, h.unreferenced⟩

lemma Purgeable.safe (a : PurgeAction) : Safe s a := by
  intro infoHash hdisposes
  cases a with
  | advance i ok =>
    obtain ⟨next, htask⟩ := hdisposes
    exact h.unreferenced infoHash (.inl ⟨_, mem_of_getElem? htask, rfl⟩)
  | execute ok => exact h.unreferenced infoHash (.inr (List.mem_of_mem_head? hdisposes))
  | persist | remove | move | createDir | useCache => exact hdisposes.elim

end

end Steps

/-- From a database with sound rows and no purge under way: as long as no row of an info hash is
inserted during a purge of it, no step releases the handle or removes the directory a row refers
to. -/
theorem safe_of_undisturbed_run (lib : Libraries) (s : PurgeSystem) (as : List PurgeAction)
    (hsound : s.tables.Sound lib.contentHash) (hidle : ∀ infoHash, ¬ s.Purges infoHash)
    (hundisturbed : Run.Along (step lib) (Undisturbed lib) s as) :
    Run.Along (step lib) Safe s as := by
  have hstart : Purgeable lib s := ⟨hsound, fun infoHash h => absurd h (hidle infoHash)⟩
  clear hsound hidle
  induction as generalizing s with
  | nil => trivial
  | cons a as ih =>
    refine ⟨hstart.safe a, fun s' hstep => ?_⟩
    exact ih s' (hundisturbed.2 s' hstep) (hstart.step hundisturbed.1 hstep)

/-- The bytes of a torrent file: those with different comments have one info dictionary. -/
def sampleTorrent (comment : Char) : List UInt8 :=
  ("d7:comment1:".toList ++ comment :: "4:infod6:lengthi3e4:name1:aee".toList).map
    fun c => UInt8.ofNat c.toNat

def sampleLibraries : Libraries where
  parse := fun data => if data = sampleTorrent '1' ∨ data = sampleTorrent '2' then
      some ⟨"a".toList, 3, "0a".toList, 1, [⟨"a".toList, 3⟩]⟩
    else none
  contentHash := List.map fun b => Char.ofNat b.toNat

def sampleSystem : PurgeSystem where
  tables := TorrentTables.empty
  handles := ∅
  commands := []
  piecesDirs := ∅
  cache :=
    { cacheDir := ⟨fun _ => none, fun _ => false⟩
      metadata := FinMap.empty
      maxCacheSize := 0
      currentSize := 0
      missCount := 0
      hitCount := 0
      evictionCount := 0
      incompletePieceKeys := ∅
      verifiedPieceKeys := ∅
      lru := ∅
      snapshotGeneration := 0
      metadataDirty := false }
  tasks := []

theorem safe_of_removal : Run.Along (step sampleLibraries) Safe sampleSystem
      [.persist none (sampleTorrent '1') [] "a.torrent".toList, .advance 0 true, .execute true,
        .remove none false "a.torrent".toList [], .advance 0 true, .advance 0 true,
        .advance 0 true, .advance 0 true, .execute true] := by
  have hidle : ∀ infoHash, ¬ sampleSystem.Purges infoHash := by
    rintro infoHash (⟨task, htask, -⟩ | hcommand)
    · exact List.not_mem_nil htask
    · exact List.not_mem_nil hcommand
  refine safe_of_undisturbed_run sampleLibraries sampleSystem _ TorrentTables.sound_empty hidle ?_
  refine ⟨fun persisted _ => hidle _, fun s _ => ?_⟩
  -- nothing is inserted after the first step
  simp only [Run.Along, Undisturbed, implies_true, and_self]

/-- The same torrent is added under a second name after the removal of the first has decided to
purge: its handle is released and its directory removed. -/
theorem referenced_torrent_disposed : ∃ s, Run.runFrom (step sampleLibraries) sampleSystem
        [.persist none (sampleTorrent '1') [] "a.torrent".toList, .advance 0 true, .execute true,
          .remove none false "a.torrent".toList [],
          .persist none (sampleTorrent '1') [] "b.torrent".toList, .advance 0 true] = some s ∧
      s.tables.Referenced "0a".toList ∧ "0a".toList ∈ s.handles ∧ "0a".toList ∈ s.piecesDirs ∧
      ¬ Run.Along (step sampleLibraries) Safe s [.execute true] ∧
      ∃ s', Run.runFrom (step sampleLibraries) s [.execute true, .advance 1 true,
          .advance 1 true] = some s' ∧
        s'.tables = s.tables ∧ "0a".toList ∉ s'.handles ∧ "0a".toList ∉ s'.piecesDirs := by
  have hrows : ∀ t : TorrentTables, (t.sourcesOfInfoHash "0a".toList).isEmpty = false →
      t.Referenced "0a".toList := by
    intro t h
    by_contra hnone
    rw [TorrentTables.isEmpty_sourcesOfInfoHash.mpr hnone] at h
    cases h
  refine ⟨_, rfl, hrows _ (by decide), by decide, by decide, fun h => ?_, _, rfl, rfl, by decide,
    by decide⟩
  exact h.1 "0a".toList rfl (hrows _ (by decide))

end PurgeSystem

end TorrentFs.Services
