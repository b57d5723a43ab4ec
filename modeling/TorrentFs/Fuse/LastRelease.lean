import TorrentFs.Fuse.FsService

/-!
# What the database holds after the last release

`release` copies the bytes of a `.torrent` file into a thread that persists them. A release that
finds such a thread at work on the same name starts none of its own, so its bytes are persisted
only if they are those the thread has copied.
-/

namespace TorrentFs.Fuse

open Text Sql Db Services InodeManager Finset

namespace FsService

def bytesOf (s : FsService) (ino : ℕ) : Option (List UInt8) :=
  match s.inodes.get ino with
  | some (.file _ _ data _) => some data
  | _ => none

def keyOf (s : FsService) (ino : ℕ) : Option (Str × Str) :=
  match s.inodes.get ino with
  | some (.file parent name _ _) => some (extractSourcePath s.inodes parent, name)
  | _ => none

/-- The step opens, writes, truncates or releases the file, or is one of a thread. -/
def OnFile (ino : ℕ) (s : FsService) : FsAction → Prop
  | .openFile i | .write i _ _ | .setattr i _ => i = ino
  | .release _ fh => s.inodeMgr.openFiles.get fh = some ino
  | .persist _ _ | .finish _ => True
  | _ => False

/-- A release finds a valid torrent, and a thread that inserts succeeds. -/
def Succeeds (lib : Libraries) (ino : ℕ) (s : FsService) : FsAction → Prop
  | .release _ _ => ∀ data ∈ s.bytesOf ino,
      data ≠ [] ∧ data.length ≤ maxTorrentSize ∧ (lib.parse data).isSome = true
  | .persist f i => ∀ thread ∈ s.threads[i]?,
      (persistTorrent lib f.fault thread.data thread.key.1 thread.key.2
        s.names.torrents).1.isSome = true
  | _ => True

/-- A release finds no thread at work on the name, or one that has copied the same bytes. -/
def Unhurried (ino : ℕ) (s : FsService) : FsAction → Prop
  | .release _ _ => ∀ thread ∈ s.threads, s.keyOf ino = some thread.key →
      s.bytesOf ino = some thread.data
  | _ => True

instance (ino : ℕ) (s : FsService) : DecidablePred (OnFile ino s)
  | .openFile i | .write i _ _ | .setattr i _ => inferInstanceAs (Decidable (i = ino))
  | .release _ fh => inferInstanceAs (Decidable (s.inodeMgr.openFiles.get fh = some ino))
  | .persist _ _ | .finish _ => inferInstanceAs (Decidable True)
  | .mknod _ _ | .create _ _ | .mkdir _ _ _ | .unlink _ _ _ | .rmdir _ _ _ | .rename _ _ _ _ _ =>
    inferInstanceAs (Decidable False)

instance (lib : Libraries) (ino : ℕ) (s : FsService) : DecidablePred (Succeeds lib ino s)
  | .release _ _ => inferInstanceAs (Decidable (∀ data ∈ s.bytesOf ino,
      data ≠ [] ∧ data.length ≤ maxTorrentSize ∧ (lib.parse data).isSome = true))
  | .persist f i => inferInstanceAs (Decidable (∀ thread ∈ s.threads[i]?,
      (persistTorrent lib f.fault thread.data thread.key.1 thread.key.2
        s.names.torrents).1.isSome = true))
  | .openFile _ | .write _ _ _ | .setattr _ _ | .finish _ | .mknod _ _ | .create _ _
  | .mkdir _ _ _ | .unlink _ _ _ | .rmdir _ _ _ | .rename _ _ _ _ _ =>
    inferInstanceAs (Decidable True)

instance (ino : ℕ) (s : FsService) : DecidablePred (Unhurried ino s)
  | .release _ _ => inferInstanceAs (Decidable (∀ thread ∈ s.threads,
      s.keyOf ino = some thread.key → s.bytesOf ino = some thread.data))
  | .openFile _ | .write _ _ _ | .setattr _ _ | .persist _ _ | .finish _ | .mknod _ _
  | .create _ _ | .mkdir _ _ _ | .unlink _ _ _ | .rmdir _ _ _ | .rename _ _ _ _ _ =>
    inferInstanceAs (Decidable True)

def releasedBy (ino : ℕ) (s : FsService) (last : Option (List UInt8)) :
    FsAction → Option (List UInt8)
  | .release _ _ => s.bytesOf ino
  | _ => last

def lastReleased (lib : Libraries) (ino : ℕ) (s : FsService) (last : Option (List UInt8)) :
    List FsAction → Option (List UInt8)
  | [] => last
  | a :: as =>
    match s.step lib a with
    | none => last
    | some s' => lastReleased lib ino s' (releasedBy ino s last a) as

def Holds (s : FsService) (key : Str × Str) (data : List UInt8) : Prop :=
  ∃ c, s.names.torrents.holdings key = some c ∧ c.torrentData = some data

/-- A file of one name, and how far the bytes of its last release have come: they are in the
database, or a thread has them. -/
structure Following (lib : Libraries) (ino parent : ℕ) (key : Str × Str)
    (last : Option (List UInt8)) (s : FsService) : Prop where
  service : s.torrentService = true
  file : ∃ data, s.inodes.get ino = some (.file parent key.2 data false)
  path : extractSourcePath s.inodes parent = key.1
  torrent : isTorrentName key.2 = true
  sound : s.names.torrents.Sound lib.contentHash
  progress : (s.threads = [] ∧ key ∉ s.processingTorrents ∧
      ∀ data, last = some data → s.Holds key data) ∨
    ∃ data, last = some data ∧ key ∈ s.processingTorrents ∧
      (s.threads = [⟨key, data, false⟩] ∨ s.threads = [⟨key, data, true⟩] ∧ s.Holds key data)

section Steps

variable {lib : Libraries} {ino parent : ℕ} {key : Str × Str} {last : Option (List UInt8)}
  {s s' : FsService}

section

variable (h : Following lib ino parent key last s)
include h

lemma Following.keyOf_eq : s.keyOf ino = some key := by
  obtain ⟨data, hget⟩ := h.file
  simp only [keyOf, hget, h.path]

lemma Following.handles (openFiles : FinMap ℕ ℕ) (nextFh : ℕ) :
    Following lib ino parent key last
      { s with inodeMgr := { s.inodeMgr with openFiles, nextFh } } :=
  ⟨h.service, h.file, h.path, h.torrent, h.sound, h.progress⟩

lemma Following.openFile (i : ℕ) : Following lib ino parent key last (s.openFile i).2 := by
  rcases openFile_cases s i with heq | heq
  · rw [heq]
    exact h
  · rw [heq]
    exact h.handles _ _

lemma Following.setData {name : Str} {p : ℕ} {data : List UInt8} {unlinked : Bool}
    (hget : s.inodes.get ino = some (.file p name data unlinked)) (data' : List UInt8) :
    Following lib ino parent key last
      (s.setInodes (s.inodes.insert ino (.file p name data' unlinked))) := by
  obtain ⟨data₀, hfile⟩ := h.file
  obtain ⟨rfl, rfl, -, rfl⟩ : parent = p ∧ key.2 = name ∧ data₀ = data ∧ false = unlinked := by
    simpa using hfile.symm.trans hget
  refine ⟨h.service, ⟨data', FinMap.get_insert_self _ _ _⟩, ?_, h.torrent, h.sound, h.progress⟩
  exact (extractSourcePath_setData hget data' parent).trans h.path

lemma Following.write (offset : ℤ) (data : List UInt8) :
    Following lib ino parent key last (s.write ino offset data).2 := by
  rcases write_cases s ino offset data with ⟨e, heq⟩ | ⟨_, _, _, _, -, hget, heq⟩
  · rw [heq]
    exact h
  · rw [heq]
    exact h.setData hget _

lemma Following.setattr (size : ℕ) : Following lib ino parent key last (s.setattr ino size).2 := by
  unfold FsService.setattr
  split
  · exact h
  · split
    · exact h
    · split
      · split
        · next hget =>
          split
          · exact h
          · exact h.setData hget _
        · exact h
      · split
        · exact h
        · exact h

lemma Following.release {f : DbFaults} {fh : ℕ} (hfh : s.inodeMgr.openFiles.get fh = some ino)
    (hvalid : Succeeds lib ino s (.release f fh)) (hunhurried : Unhurried ino s (.release f fh)) :
    Following lib ino parent key (s.bytesOf ino) (s.release lib f fh).2 := by
  obtain ⟨data, hget⟩ := h.file
  have hbytes : s.bytesOf ino = some data := by simp only [bytesOf, hget]
  obtain ⟨hne, hlen, hparse⟩ := hvalid data hbytes
  -- the release comes to the threads
  have hrelease : (s.release lib f fh).2 =
      startPersist { s with inodeMgr := { s.inodeMgr with
        openFiles := s.inodeMgr.openFiles.erase fh } } key data := by
    have hget' : s.inodeMgr.inodes.get ino = some (.file parent key.2 data false) := hget
    have hpath : extractSourcePath s.inodeMgr.inodes parent = key.1 := h.path
    simp only [FsService.release, hfh, FsService.inodes, isUnlinkedFile, hget', h.torrent, hne,
      Nat.not_lt.mpr hlen, hpath]
    simp [Option.isSome_iff_ne_none.mp hparse]
  rw [hrelease, hbytes]
  unfold startPersist
  rcases h.progress with ⟨hthreads, hfree, -⟩ | ⟨copy, hlast, hbusy, hthread⟩
  · rw [if_neg hfree, if_pos h.service]
    refine ⟨h.service, h.file, h.path, h.torrent, h.sound, .inr ⟨data, rfl, ?_, .inl ?_⟩⟩
    · exact mem_insert_self _ _
    · show s.threads ++ _ = _
      rw [hthreads]
      rfl
  · rw [if_pos hbusy]
    obtain ⟨inserted, hthreads⟩ : ∃ inserted, s.threads = [⟨key, copy, inserted⟩] :=
      hthread.elim (fun h => ⟨false, h⟩) fun h => ⟨true, h.1⟩
    have hcopy : some data = some copy := by
      rw [← hbytes]
      exact hunhurried ⟨key, copy, inserted⟩ (hthreads ▸ List.mem_singleton_self _) h.keyOf_eq
    cases hcopy
    exact ⟨h.service, h.file, h.path, h.torrent, h.sound, .inr ⟨data, rfl, hbusy, hthread⟩⟩

end

lemma eq_of_getElem?_singleton {thread thread' : PersistThread} {i : ℕ}
    (h : [thread][i]? = some thread') : i = 0 ∧ thread = thread' := by
  rw [List.getElem?_singleton] at h
  split at h
  · next hi => exact ⟨hi, Option.some.inj h⟩
  · cases h

section

variable (h : Following lib ino parent key last s)
include h

lemma Following.persist {f : DbFaults} {i : ℕ} (hsucceeds : Succeeds lib ino s (.persist f i))
    (hstep : s.persistStep lib f i = some s') : Following lib ino parent key last s' := by
  unfold persistStep at hstep
  split at hstep
  · next key' data hthread =>
    have hsome := hsucceeds _ hthread
    dsimp only at hsome hstep
    rw [if_pos hsome, Option.some.injEq] at hstep
    subst hstep
    have hsound := (persistTorrent_spec lib h.sound f.fault data key'.1 key'.2).sound
    rcases h.progress with ⟨hthreads, -⟩ | ⟨copy, hlast, hbusy, hthreads | ⟨hthreads, -⟩⟩
    · rw [hthreads] at hthread
      cases hthread
    · -- the only thread is the one of this name
      obtain ⟨rfl, heq⟩ := eq_of_getElem?_singleton (hthreads ▸ hthread)
      obtain ⟨rfl, rfl⟩ : key = key' ∧ copy = data := by simpa using heq
      refine ⟨h.service, h.file, h.path, h.torrent, hsound,
        .inr ⟨copy, hlast, hbusy, .inr ⟨?_, ?_⟩⟩⟩
      · show s.threads.set 0 _ = _
        rw [hthreads]
        rfl
      · obtain ⟨c, hbytes, hholdings⟩ := holdings_persistTorrent h.sound hsome
        refine ⟨c, ?_, hbytes⟩
        show (persistTorrent lib f.fault copy key.1 key.2 s.names.torrents).2.holdings key = _
        rw [hholdings, Function.update_self]
    · obtain ⟨-, heq⟩ := eq_of_getElem?_singleton (hthreads ▸ hthread)
      simp at heq
  · cases hstep

lemma Following.finish {i : ℕ} (hstep : s.finishStep i = some s') :
    Following lib ino parent key last s' := by
  unfold finishStep at hstep
  split at hstep
  · next key' data hthread =>
    cases hstep
    rcases h.progress with ⟨hthreads, -⟩ | ⟨copy, hlast, -, hthreads | ⟨hthreads, hholds⟩⟩
    · rw [hthreads] at hthread
      cases hthread
    · obtain ⟨-, heq⟩ := eq_of_getElem?_singleton (hthreads ▸ hthread)
      simp at heq
    · obtain ⟨rfl, heq⟩ := eq_of_getElem?_singleton (hthreads ▸ hthread)
      obtain ⟨rfl, rfl⟩ : key = key' ∧ copy = data := by simpa using heq
      refine ⟨h.service, h.file, h.path, h.torrent, h.sound, .inl ⟨?_, ?_, ?_⟩⟩
      · show s.threads.eraseIdx 0 = []
        rw [hthreads]
        rfl
      · exact notMem_erase _ _
      · intro bytes hbytes
        obtain rfl := Option.some.inj (hlast.symm.trans hbytes)
        exact hholds
  · cases hstep

lemma Following.step {a : FsAction} (hfile : OnFile ino s a) (hsucceeds : Succeeds lib ino s a)
    (hunhurried : Unhurried ino s a) (hstep : FsService.step lib s a = some s') :
    Following lib ino parent key (releasedBy ino s last a) s' := by
  cases a with
  | openFile i =>
    cases hstep
    exact h.openFile i
  | write i offset data =>
    cases hstep
    obtain rfl : i = ino := hfile
    exact h.write offset data
  | setattr i size =>
    cases hstep
    obtain rfl : i = ino := hfile
    exact h.setattr size
  | release f fh =>
    cases hstep
    exact h.release hfile hsucceeds hunhurried
  | persist f i => exact h.persist hsucceeds hstep
  | finish i => exact h.finish hstep
  | mknod | create | mkdir | unlink | rmdir | rename => exact hfile.elim

lemma Following.run {as : List FsAction}
    (halong : Run.Along (FsService.step lib) (fun s a => OnFile ino s a ∧ Succeeds lib ino s a ∧
      Unhurried ino s a) s as) (hrun : Run.runFrom (FsService.step lib) s as = some s') :
    Following lib ino parent key (lastReleased lib ino s last as) s' := by
  induction as generalizing s last with
  | nil =>
    cases hrun
    exact h
  | cons a as ih =>
    obtain ⟨t, hstep, hrest⟩ := Run.runFrom_cons_eq_some.mp hrun
    obtain ⟨⟨hfile, hsucceeds, hunhurried⟩, htail⟩ := halong
    have hnext := ih (h.step hfile hsucceeds hunhurried hstep) (htail t hstep) hrest
    rw [lastReleased, hstep]
    exact hnext

end

end Steps

/-- A `.torrent` file that no thread is at work on is opened, written, truncated and released, in
any interleaving with the threads this starts. When no release finds a thread with other bytes at
work on the name, then, once no thread is left, the database holds the bytes of the last
release. -/
theorem holds_lastReleased_of_run (lib : Libraries) (s s' : FsService) (ino parent : ℕ)
    (name : Str) (data : List UInt8) (as : List FsAction) (bytes : List UInt8)
    (hservice : s.torrentService = true) (hsound : s.names.torrents.Sound lib.contentHash)
    (hfile : s.inodes.get ino = some (.file parent name data false))
    (htorrent : isTorrentName name = true) (hthreads : s.threads = [])
    (hidle : (extractSourcePath s.inodes parent, name) ∉ s.processingTorrents)
    (halong : Run.Along (step lib) (fun s a => OnFile ino s a ∧ Succeeds lib ino s a ∧
      Unhurried ino s a) s as)
    (hrun : Run.runFrom (step lib) s as = some s') (hdone : s'.threads = [])
    (hlast : lastReleased lib ino s none as = some bytes) :
    s'.Holds (extractSourcePath s.inodes parent, name) bytes := by
  have hstart : Following lib ino parent (extractSourcePath s.inodes parent, name) none s :=
    ⟨hservice, ⟨data, hfile⟩, rfl, htorrent, hsound,
      .inl ⟨hthreads, hidle, fun _ h => absurd h (Option.some_ne_none _).symm⟩⟩
  rcases (hstart.run halong hrun).progress with ⟨-, -, hholds⟩ | ⟨_, -, -, hbusy | ⟨hbusy, -⟩⟩
  · exact hholds bytes hlast
  · rw [hdone] at hbusy
    cases hbusy
  · rw [hdone] at hbusy
    cases hbusy

lemma holds_iff {s : FsService} {key : Str × Str} {data : List UInt8} :
    s.Holds key data ↔ (s.names.torrents.holdings key).bind Content.torrentData = some data := by
  rw [Option.bind_eq_some_iff]
  rfl

open PurgeSystem (sampleTorrent sampleLibraries)

def sampleFile : FsService := (new.create metadataIno "a.torrent".toList).2

def patientReleases : List FsAction :=
  [.write 5 0 (sampleTorrent '1'), .release noFaults 1, .persist noFaults 0, .finish 0, .openFile 5,
    .write 5 0 (sampleTorrent '2'), .release noFaults 2, .persist noFaults 0, .finish 0]

theorem holds_lastReleased_of_patientReleases :
    ∃ s', Run.runFrom (step sampleLibraries) sampleFile patientReleases = some s' ∧
      s'.Holds ([], "a.torrent".toList) (sampleTorrent '2') := by
  refine ⟨_, rfl, ?_⟩
  exact holds_lastReleased_of_run sampleLibraries sampleFile _ 5 metadataIno
    "a.torrent".toList [] patientReleases (sampleTorrent '2') rfl TorrentTables.sound_empty
    (by decide) (by decide) rfl (by decide) (by decide) rfl rfl rfl

/-- The second release finds the thread of the first at work and starts none: the database is left
with the bytes of the first. -/
theorem earlier_release_kept : ∃ s', Run.runFrom (step sampleLibraries) sampleFile
        [.write 5 0 (sampleTorrent '1'), .release noFaults 1, .openFile 5,
          .write 5 0 (sampleTorrent '2'), .release noFaults 2, .persist noFaults 0, .finish 0] =
        some s' ∧
      s'.threads = [] ∧ s'.inodeMgr.openHandleCount 5 = 0 ∧
      s'.bytesOf 5 = some (sampleTorrent '2') ∧
      s'.Holds ([], "a.torrent".toList) (sampleTorrent '1') ∧
      ¬ s'.Holds ([], "a.torrent".toList) (sampleTorrent '2') := by
  refine ⟨_, rfl, rfl, by decide, by decide, ?_, ?_⟩
  · rw [holds_iff]
    decide
  · rw [holds_iff]
    decide

end FsService

end TorrentFs.Fuse
