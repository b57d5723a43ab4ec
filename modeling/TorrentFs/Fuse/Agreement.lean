import TorrentFs.Fuse.Locations
import TorrentFs.Fuse.Renames

/-!
# The rows of the database and the files of the tree

A `.torrent` file below `metadata/` that has been released has a row in the database, under the
source path that its parent directories spell. The row lands later than the release, from a thread
that has copied the name. Here the invariant that links the tree, the rows and the threads is
stated, and shown of every call but the renames, and of the steps of the threads.
-/

namespace TorrentFs.Fuse

open Text Word Sql Joined NameTree Db Services InodeManager List FinMap

/-! ### Rows, files and threads -/

/-- Every row is the name of a file, every file has its row or a thread that will insert it, and a
thread is at work on the name of a file. -/
structure Landed (rows files : Set (Str × Str)) (threads : List PersistThread) : Prop where
  subset : rows ⊆ files
  landed : ∀ name ∈ files, name ∈ rows ∨
    ∃ thread ∈ threads, thread.key = name ∧ thread.inserted = false
  busy : ∀ thread ∈ threads, thread.key ∈ files

namespace Landed

variable {rows files : Set (Str × Str)} {threads : List PersistThread} {old new key : Str × Str}
  {data : List UInt8} {i : ℕ}

lemma eq_of_idle (h : Landed rows files []) : rows = files := by
  refine Set.Subset.antisymm h.subset fun name hname => ?_
  obtain hrow | ⟨thread, hthread, -⟩ := h.landed name hname
  · exact hrow
  · exact absurd hthread not_mem_nil

section

variable (h : Landed rows files threads)
include h

lemma remove (hidle : ∀ thread ∈ threads, thread.key ≠ old) :
    Landed (rows \ {old}) (files \ {old}) threads where
  subset := Set.sdiff_subset_sdiff_left h.subset
  landed := fun name hname => (h.landed name hname.1).imp_left fun hrow => ⟨hrow, hname.2⟩
  busy := fun thread hthread => ⟨h.busy thread hthread, hidle thread hthread⟩

lemma move (hidle : ∀ thread ∈ threads, thread.key ≠ old) :
    Landed (insert new (rows \ {old})) (insert new (files \ {old})) threads where
  subset := Set.insert_subset_insert (h.remove hidle).subset
  landed := by
    rintro name (rfl | hname)
    · exact .inl (.inl rfl)
    · exact ((h.remove hidle).landed name hname).imp_left .inr
  busy := fun thread hthread => .inr ((h.remove hidle).busy thread hthread)

lemma image {g : Str × Str → Str × Str} (hfixed : ∀ thread ∈ threads, g thread.key = thread.key) :
    Landed (g '' rows) (g '' files) threads where
  subset := Set.image_mono h.subset
  landed := by
    rintro _ ⟨name, hname, rfl⟩
    obtain hrow | ⟨thread, hthread, rfl, hinserted⟩ := h.landed name hname
    · exact .inl ⟨name, hrow, rfl⟩
    · exact .inr ⟨thread, hthread, (hfixed thread hthread).symm, hinserted⟩
  busy := fun thread hthread => ⟨thread.key, h.busy thread hthread, hfixed thread hthread⟩

lemma start : Landed rows (insert key files) (threads ++ [⟨key, data, false⟩]) where
  subset := h.subset.trans (Set.subset_insert _ _)
  landed := by
    rintro name (rfl | hname)
    · exact .inr ⟨_, mem_append_right _ (mem_singleton_self _), rfl, rfl⟩
    · obtain hrow | ⟨thread, hthread, hkey⟩ := h.landed name hname
      · exact .inl hrow
      · exact .inr ⟨thread, mem_append_left _ hthread, hkey⟩
  busy := by
    intro thread hthread
    rcases List.mem_append.mp hthread with hthread | hthread
    · exact .inr (h.busy thread hthread)
    · exact .inl (List.mem_singleton.mp hthread ▸ rfl)

lemma persist (hi : threads[i]? = some ⟨key, data, false⟩) :
    Landed (insert key rows) files (threads.set i ⟨key, data, true⟩) := by
  have hkey : key ∈ files := h.busy _ (mem_of_getElem? hi)
  refine ⟨Set.insert_subset hkey h.subset, fun name hname => ?_, fun thread hthread => ?_⟩
  · obtain hrow | ⟨thread, hthread, rfl, hinserted⟩ := h.landed name hname
    · exact .inl (.inr hrow)
    · by_cases hsame : thread.key = key
      · exact .inl (.inl hsame)
      · -- the thread is another one, and stays
        refine .inr ⟨thread, ?_, rfl, hinserted⟩
        obtain ⟨j, hj⟩ := List.mem_iff_getElem?.mp hthread
        refine List.mem_iff_getElem?.mpr ⟨j, ?_⟩
        rw [getElem?_set_ne, hj]
        rintro rfl
        rw [hi, Option.some.injEq] at hj
        exact hsame (hj ▸ rfl)
  · rcases mem_or_eq_of_mem_set hthread with hthread | rfl
    · exact h.busy thread hthread
    · exact hkey

lemma finish (hi : threads[i]? = some ⟨key, data, true⟩) :
    Landed rows files (threads.eraseIdx i) := by
  refine ⟨h.subset, fun name hname => ?_, fun thread hthread => ?_⟩
  · obtain hrow | ⟨thread, hthread, hkey, hinserted⟩ := h.landed name hname
    · exact .inl hrow
    · refine .inr ⟨thread, List.mem_eraseIdx_iff_getElem?.mpr ?_, hkey, hinserted⟩
      obtain ⟨j, hj⟩ := List.mem_iff_getElem?.mp hthread
      refine ⟨j, ?_, hj⟩
      rintro rfl
      rw [hi, Option.some.injEq] at hj
      rw [← hj] at hinserted
      cases hinserted
  · exact h.busy thread (mem_of_mem_eraseIdx hthread)

end

end Landed

namespace FsService

/-! ### The invariant -/

/-- The tree has its shape, the rows are those of the files in `released` or about to be, and the
keys in `processing_torrents` are those of the threads. -/
structure Agreement (lib : Libraries) (s : FsService) (released : Finset ℕ) : Prop where
  service : s.torrentService = true
  tree : Tree s.inodes s.inodeMgr.nextIno
  reserved : ∀ ino, ino < firstIno → s.inodes.get ino = InodeManager.new.inodes.get ino
  created : ∀ ino ∈ released, ino < s.inodeMgr.nextIno
  sound : s.names.torrents.Sound lib.contentHash
  landed : Landed s.names.torrents.names (locations s.inodes released) s.threads
  processing : ∀ key, key ∈ s.processingTorrents ↔ ∃ thread ∈ s.threads, thread.key = key
  distinct : (s.threads.map PersistThread.key).Nodup

section Agreement

variable {lib : Libraries} {s after : FsService} {released : Finset ℕ} {ino parent : ℕ}
  {name : Str} {data : List UInt8} {unlinked : Bool} {key : Str × Str}

section

variable (h : Agreement lib s released)
include h

lemma Agreement.handles (openFiles : FinMap ℕ ℕ) (nextFh : ℕ) :
    Agreement lib { s with inodeMgr := { s.inodeMgr with openFiles, nextFh } } released :=
  ⟨h.service, h.tree, h.reserved, h.created, h.sound, h.landed, h.processing, h.distinct⟩

lemma Agreement.leaves {m : FinMap ℕ InodeData} {torrents : TorrentTables}
    (hafter : Leaves s m torrents after) (htree : Tree m s.inodeMgr.nextIno)
    (hreserved : ∀ i, i < firstIno → m.get i = s.inodes.get i)
    (hsound : torrents.Sound lib.contentHash)
    (hlanded : Landed torrents.names (locations m released) s.threads) :
    Agreement lib after released := by
  refine ⟨hafter.service.trans h.service, ?_, fun i hi => ?_, fun i hi => ?_, ?_, ?_,
    fun k => ?_, ?_⟩
  · rwa [hafter.inodes, hafter.nextIno]
  · rw [hafter.inodes, hreserved i hi, h.reserved i hi]
  · rw [hafter.nextIno]
    exact h.created i hi
  · rwa [hafter.torrents]
  · rwa [hafter.torrents, hafter.inodes, hafter.threads]
  · rw [hafter.processing, hafter.threads, h.processing]
  · rw [hafter.threads]
    exact h.distinct

lemma Agreement.idle (hkey : key ∉ s.processingTorrents) : ∀ thread ∈ s.threads, thread.key ≠ key :=
  fun thread hthread heq => hkey ((h.processing key).mpr ⟨thread, hthread, heq⟩)

lemma Agreement.firstIno_le_of_file
    (hget : s.inodes.get ino = some (.file parent name data unlinked)) (hne : ino ≠ statsIno) :
    firstIno ≤ ino := Reserved.firstIno_le_of_file h.reserved hget hne

lemma Agreement.firstIno_le_of_child {d : InodeData} (hget : s.inodes.get ino = some d)
    (hchild : isMetadataChild s.inodes d.parent = true) :
    firstIno ≤ ino := h.tree.firstIno_le_of_child h.reserved hget hchild

lemma Agreement.exists_dirPath (hchild : isMetadataChild s.inodes ino = true)
    (hdir : (s.inodes.get ino).any InodeData.isFile = false) :
    ∃ path, DirPath s.inodes ino path := h.tree.exists_dirPath h.reserved hchild hdir

lemma Agreement.mem_names (hkey : key ∉ s.processingTorrents)
    (hmem : key ∈ locations s.inodes released) : key ∈ s.names.torrents.names := by
  obtain hrow | ⟨thread, hthread, heq, -⟩ := h.landed.landed key hmem
  · exact hrow
  · exact absurd heq (h.idle hkey thread hthread)

end

end Agreement

/-! ### Calls on one file -/

section Calls

variable {lib : Libraries} {s : FsService} {released : Finset ℕ} {ino parent : ℕ}
  {name : Str} {data : List UInt8} {unlinked : Bool} {key : Str × Str}

section

variable (h : Agreement lib s released)
include h

lemma Agreement.openFile (i : ℕ) : Agreement lib (s.openFile i).2 released := by
  rcases openFile_cases s i with heq | heq
  · rw [heq]
    exact h
  · rw [heq]
    exact h.handles _ _

lemma Agreement.setData (hne : ino ≠ statsIno)
    (hget : s.inodes.get ino = some (.file parent name data unlinked)) (data' : List UInt8) :
    Agreement lib (s.setInodes (s.inodes.insert ino (.file parent name data' unlinked)))
      released := by
  have hino := h.firstIno_le_of_file hget hne
  have hafter : Leaves s (s.inodes.insert ino (.file parent name data' unlinked)) s.names.torrents
      (s.setInodes (s.inodes.insert ino (.file parent name data' unlinked))) :=
    ⟨rfl, rfl, rfl, rfl, rfl, rfl, rfl⟩
  refine h.leaves hafter (h.tree.setData hino hget data') ?_ h.sound ?_
  · intro i hi
    exact get_insert_ne _ (Nat.ne_of_lt (hi.trans_le hino)) _
  · rw [locations_congr fun i _ location => located_setData hget data' i]
    exact h.landed

lemma Agreement.write (i : ℕ) (offset : ℤ) (bytes : List UInt8) :
    Agreement lib (s.write i offset bytes).2 released := by
  rcases write_cases s i offset bytes with ⟨e, heq⟩ | ⟨_, _, _, _, hne, hget, heq⟩
  · rw [heq]
    exact h
  · rw [heq]
    exact h.setData hne hget _

lemma Agreement.setattr (i size : ℕ) : Agreement lib (s.setattr i size).2 released := by
  unfold FsService.setattr
  split
  · exact h
  next hstats =>
  split
  · exact h
  split
  · split
    · next hget =>
      split
      · exact h
      · exact h.setData (fun heq => hstats (.inl heq)) hget _
    · exact h
  · split
    · exact h
    · exact h

lemma Agreement.retire {after : FsService} {m : FinMap ℕ InodeData} {f : DbFaults}
    {removed : Option (ℕ × Str)} {purge : Option Str} {torrents : TorrentTables}
    (hino : firstIno ≤ ino) (hget : s.inodes.get ino = some (.file parent name data false))
    (hm : m = s.inodes.insert ino (.file parent name data true) ∨ m = s.inodes.erase ino)
    (hidle : (extractSourcePath s.inodes parent, name) ∉ s.processingTorrents)
    (hdb : s.names.torrents.removeTorrent f.fault f.checkFails name
      (extractSourcePath s.inodes parent) = (.ok removed, purge, torrents))
    (hafter : Leaves s s.inodes torrents after) :
    Agreement lib (after.setInodes m) released := by
  obtain ⟨htree, hchange, hgone⟩ := h.tree.retire hino hget hm
  have hset : Leaves s m torrents (after.setInodes m) := { hafter with inodes := rfl }
  have hsound := (TorrentTables.sound_removeTorrent h.sound f.fault f.checkFails name
    (extractSourcePath s.inodes parent)).1
  rw [hdb] at hsound
  refine h.leaves hset htree (fun i hi => ?_) hsound ?_
  · exact hchange.others i (Nat.ne_of_lt (hi.trans_le hino))
  · rw [TorrentTables.names_removeTorrent hdb, locations_retireFile h.tree
      (fun i hne => hchange.located_iff hne) (h.tree.located hino hget)
      fun _ => not_located_of_not_linked hgone]
    exact h.landed.remove (h.idle hidle)

end

lemma removeTorrentAndDataState_cases (hservice : s.torrentService = true)
    (hidle : key ∉ s.processingTorrents) (f : DbFaults) :
    let result := s.removeTorrentAndDataState f key.1 key.2
    (∃ e, result = (.error e, s)) ∨
      ∃ id removed purge torrents after,
        s.names.torrents.removeTorrent f.fault f.checkFails key.2 key.1 =
          (.ok removed, purge, torrents) ∧
        result = (.ok id, after) ∧ Leaves s s.inodes torrents after := by
  unfold removeTorrentAndDataState
  rw [if_pos hservice]
  rcases hdb : s.names.torrents.removeTorrent f.fault f.checkFails key.2 key.1 with
    ⟨outcome, purge, torrents⟩
  rcases outcome with e | (_ | ⟨id, infoHash⟩)
  · exact .inl ⟨_, rfl⟩
  · refine .inr ⟨none, none, purge, torrents, s, rfl, rfl, ⟨rfl, ?_, rfl, rfl, rfl, rfl, rfl⟩⟩
    -- the row was not there, so the tables are the same
    rcases TorrentTables.removeTorrent_cases f.fault f.checkFails key.2 key.1 s.names.torrents with
      ⟨_, heq⟩ | ⟨_, _, _, _, _, heq⟩
    · rw [hdb] at heq
      exact (congrArg (fun result => result.2.2) heq).symm
    · rw [hdb] at heq
      cases (Prod.mk.inj heq).1
  · exact .inr ⟨some id, some (id, infoHash), purge, torrents, _, rfl, rfl,
      ⟨rfl, rfl, Finset.erase_eq_of_notMem hidle, rfl, rfl, rfl, rfl⟩⟩

section

variable (h : Agreement lib s released)
include h

lemma Agreement.discard (hino : firstIno ≤ ino)
    (hget : s.inodes.get ino = some (.file parent name data false)) (f : DbFaults)
    (result : Except FsError Unit) :
    Agreement lib (s.discard f ino (extractSourcePath s.inodes parent, name) result).2
      released := by
  unfold FsService.discard waitForPendingAdd
  by_cases hbusy : (extractSourcePath s.inodes parent, name) ∈ s.processingTorrents
  · rw [if_pos hbusy]
    exact h
  rw [if_neg hbusy]
  rcases removeTorrentAndDataState_cases h.service hbusy f with
    ⟨e, heq⟩ | ⟨id, removed, purge, torrents, after, hdb, heq, hafter⟩
  · rw [heq]
    exact h
  · rw [heq]
    exact h.retire hino hget (.inr (congrArg (FinMap.erase · ino) hafter.inodes)) hbusy hdb hafter

lemma Agreement.unlink (f : DbFaults) (parent : ℕ) (name : Str) :
    Agreement lib (s.unlink f parent name).2 released := by
  rcases unlink_cases s f parent name with
    heq | ⟨ino, data, id, after, hchild, hget, hidle, hremove, heq⟩
  · rw [heq]
    exact h
  have hbusy := hidle h.service
  rcases removeTorrentAndDataState_cases h.service hbusy f with
    ⟨e, herror⟩ | ⟨_, removed, purge, torrents, _, hdb, hok, hafter⟩
  · cases hremove.symm.trans herror
  · cases hremove.symm.trans hok
    have hsame : after.inodeMgr.inodes = s.inodes := hafter.inodes
    have hm := unlinkFile_cases (hsame ▸ hget)
    rw [hsame] at hm
    rw [heq]
    exact h.retire (h.firstIno_le_of_child hget hchild) hget (hm.imp And.right And.right) hbusy hdb
      hafter

lemma Agreement.rmdir (f : DbFaults) (parent : ℕ) (name : Str) :
    Agreement lib (s.rmdir f parent name).2 released := by
  rcases rmdir_cases s f parent name with
    heq | ⟨i, names, hchild, hget, hleaf, heq, htorrents⟩
  · rw [heq]
    exact h
  · rw [heq]
    have hino := h.firstIno_le_of_child hget hchild
    obtain ⟨htree, hlocated⟩ := h.tree.removeDirectory hino hleaf
    have hnot : ∀ location, ¬ Located (s.inodes.erase i) i location := by
      refine fun location => not_located_of_not_linked fun d hd => ?_
      rw [get_erase, if_pos rfl] at hd
      cases hd
    have hnot' : ∀ location, ¬ Located s.inodes i location := by
      rintro location ⟨-, _, _, _, _, hfile, -⟩
      rw [hget] at hfile
      cases hfile
    have hsame : locations (s.inodes.erase i) released = locations s.inodes released := by
      refine locations_congr fun j _ location => ?_
      by_cases hj : j = i
      · subst hj
        exact iff_of_false (hnot location) (hnot' location)
      · exact hlocated j hj location
    have hkeep : ∀ j, j < firstIno → (s.inodes.erase i).get j = s.inodes.get j := by
      intro j hj
      rw [get_erase, if_neg (Nat.ne_of_lt (hj.trans_le hino))]
    exact h.leaves ⟨rfl, htorrents, rfl, rfl, rfl, rfl, rfl⟩ htree hkeep h.sound (hsame ▸ h.landed)

lemma Agreement.addInode {d : InodeData} (hchild : isMetadataChild s.inodes d.parent = true)
    (hdir : (s.inodes.get d.parent).any InodeData.isFile = false)
    (hname : d.name ≠ [] ∧ '/' ∉ d.name) (hfree : findChildByName s.inodes d.parent d.name = none)
    (hroom : s.inodeMgr.nextIno + 1 < 2 ^ 64) : Agreement lib (s.addInode d) released := by
  obtain ⟨path, hpath⟩ := h.exists_dirPath hchild hdir
  obtain ⟨htree, hlocated⟩ := h.tree.add hpath hname hfree
  have hnext : (s.addInode d).inodeMgr.nextIno = s.inodeMgr.nextIno + 1 := addU64_of_lt hroom
  have hinodes : (s.addInode d).inodes = s.inodes.insert s.inodeMgr.nextIno d := rfl
  have hsame : locations (s.addInode d).inodes released = locations s.inodes released := by
    rw [hinodes]
    refine locations_congr fun i hi location => hlocated i ?_ location
    exact Nat.ne_of_lt (h.created i hi)
  refine ⟨h.service, ?_, fun i hi => ?_, fun i hi => ?_, h.sound, ?_, h.processing, h.distinct⟩
  · rw [hnext]
    exact htree
  · rw [hinodes, get_insert_ne _ (Nat.ne_of_lt (hi.trans_le h.tree.first))]
    exact h.reserved i hi
  · rw [hnext]
    exact (h.created i hi).trans (Nat.lt_succ_self _)
  · rw [hsame]
    exact h.landed

end

lemma checkNew_eq_ok {file : Bool} (h : s.checkNew parent name file = .ok ()) :
    isMetadataChild s.inodes parent = true ∧ findChildByName s.inodes parent name = none := by
  unfold checkNew at h
  split at h
  · cases h
  split at h
  · cases h
  next hchild =>
  split at h
  · cases h
  split at h
  · cases h
  next hfree => exact ⟨by simpa using hchild, by simpa using hfree⟩

lemma Agreement.startPersist (h : Agreement lib s released) (hino : firstIno ≤ ino)
    (hget : s.inodes.get ino = some (.file parent name data false)) (bytes : List UInt8) :
    Agreement lib (s.startPersist (extractSourcePath s.inodes parent, name) bytes)
      (insert ino released) := by
  have hlocated := h.tree.located hino hget
  have hlocations : locations s.inodes (insert ino released) =
      insert (extractSourcePath s.inodes parent, name) (locations s.inodes released) := by
    ext location
    constructor
    · rintro ⟨i, hi, hi'⟩
      rcases Finset.mem_insert.mp hi with rfl | hi
      · exact .inl (hi'.unique hlocated)
      · exact .inr ⟨i, hi, hi'⟩
    · rintro (rfl | ⟨i, hi, hi'⟩)
      · exact ⟨ino, Finset.mem_insert_self _ _, hlocated⟩
      · exact ⟨i, Finset.mem_insert_of_mem hi, hi'⟩
  have hcreated : ∀ i ∈ insert ino released, i < s.inodeMgr.nextIno := by
    intro i hi
    rcases Finset.mem_insert.mp hi with rfl | hi
    · exact h.tree.fresh i _ hget
    · exact h.created i hi
  unfold FsService.startPersist
  by_cases hbusy : (extractSourcePath s.inodes parent, name) ∈ s.processingTorrents
  · rw [if_pos hbusy]
    -- the thread at work on the name will insert the row
    obtain ⟨thread, hthread, hkey⟩ := (h.processing _).mp hbusy
    have hmem := hkey ▸ h.landed.busy thread hthread
    refine ⟨h.service, h.tree, h.reserved, hcreated, h.sound, ?_, h.processing, h.distinct⟩
    rw [hlocations, Set.insert_eq_of_mem hmem]
    exact h.landed
  · rw [if_neg hbusy, if_pos h.service]
    refine ⟨h.service, h.tree, h.reserved, hcreated, h.sound, ?_, fun k => ?_, ?_⟩
    · show Landed _ (locations s.inodes (insert ino released)) _
      rw [hlocations]
      exact h.landed.start
    · rw [Finset.mem_insert, h.processing]
      simp only [mem_append, mem_singleton, or_and_right, exists_or, exists_eq_left]
      rw [or_comm, eq_comm]
    · rw [map_append, nodup_append']
      refine ⟨h.distinct, nodup_singleton _, ?_⟩
      rw [map_singleton, disjoint_singleton, mem_map]
      rintro ⟨thread, hthread, hkey⟩
      exact h.idle hbusy thread hthread hkey

end Calls

/-! ### Releases -/

def accepted (lib : Libraries) (s : FsService) (fh : ℕ) : Option ℕ :=
  match s.inodeMgr.openFiles.get fh with
  | none => none
  | some ino =>
    match s.inodes.get ino with
    | some (.file _ name data false) =>
      if isTorrentName name ∧ data ≠ [] ∧ data.length ≤ maxTorrentSize ∧
          (lib.parse data).isSome then some ino else none
    | _ => none

def releasedAfter (lib : Libraries) (s : FsService) (released : Finset ℕ) : FsAction → Finset ℕ
  | .release _ fh =>
    match accepted lib s fh with
    | some ino => insert ino released
    | none => released
  | _ => released

section Releases

variable {lib : Libraries} {s s' : FsService} {released : Finset ℕ}

def closeHandle (s : FsService) (fh : ℕ) : FsService :=
  { s with inodeMgr := { s.inodeMgr with openFiles := s.inodeMgr.openFiles.erase fh } }

lemma release_of_handle (lib : Libraries) {s : FsService} (f : DbFaults) {fh ino : ℕ}
    (hfh : s.inodeMgr.openFiles.get fh = some ino) :
    s.release lib f fh =
      if isUnlinkedFile s.inodes ino then
        (.ok (), if (s.closeHandle fh).inodeMgr.openHandleCount ino = 0 then
          (s.closeHandle fh).setInodes (s.inodes.erase ino) else s.closeHandle fh)
      else
        match s.inodes.get ino with
        | some (.file parent name data _) =>
          if isTorrentName name then
            let key := (extractSourcePath s.inodes parent, name)
            if data = [] then (s.closeHandle fh).discard f ino key (.error .notFound)
            else if maxTorrentSize < data.length then
              (s.closeHandle fh).discard f ino key (.ok ())
            else if (lib.parse data).isNone then
              (s.closeHandle fh).discard f ino key (.ok ())
            else (.ok (), (s.closeHandle fh).startPersist key data)
          else (.ok (), s.closeHandle fh)
        | _ => (.ok (), s.closeHandle fh) := by
  simp only [FsService.release, hfh]
  rfl

lemma release_cases (lib : Libraries) (s : FsService) (f : DbFaults) (fh : ℕ) :
    (accepted lib s fh = none ∧
        ((s.release lib f fh).2 = s ∨ (s.release lib f fh).2 = s.closeHandle fh)) ∨
      ∃ ino parent name data unlinked, s.inodes.get ino = some (.file parent name data unlinked) ∧
        ((accepted lib s fh = none ∧ unlinked = true ∧
            (s.release lib f fh).2 = (s.closeHandle fh).setInodes (s.inodes.erase ino)) ∨
          unlinked = false ∧ isTorrentName name = true ∧
            ((accepted lib s fh = none ∧ ∃ result, s.release lib f fh =
                (s.closeHandle fh).discard f ino (extractSourcePath s.inodes parent, name) result) ∨
              accepted lib s fh = some ino ∧ (s.release lib f fh).2 =
                (s.closeHandle fh).startPersist (extractSourcePath s.inodes parent, name)
                  data)) := by
  cases hfh : s.inodeMgr.openFiles.get fh with
  | none =>
    refine .inl ⟨?_, .inl ?_⟩
    · simp only [accepted, hfh]
    · simp only [FsService.release, hfh]
  | some ino =>
    have haccepted : accepted lib s fh =
        match s.inodes.get ino with
        | some (.file _ name data false) =>
          if isTorrentName name ∧ data ≠ [] ∧ data.length ≤ maxTorrentSize ∧
              (lib.parse data).isSome then some ino else none
        | _ => none := by
      simp only [accepted, hfh]
    rw [release_of_handle lib f hfh, haccepted]
    unfold isUnlinkedFile
    cases hget : s.inodes.get ino with
    | none => exact .inl ⟨rfl, .inr rfl⟩
    | some d =>
      match d with
      | .directory _ _ => exact .inl ⟨rfl, .inr rfl⟩
      | .file parent name data true =>
        dsimp only
        rw [if_pos rfl]
        split
        · exact .inr ⟨ino, parent, name, data, true, hget, .inl ⟨rfl, rfl, rfl⟩⟩
        · exact .inl ⟨rfl, .inr rfl⟩
      | .file parent name data false =>
        dsimp only
        rw [if_neg Bool.false_ne_true]
        by_cases htorrent : isTorrentName name = true
        · refine .inr ⟨ino, parent, name, data, false, hget, .inr ⟨rfl, htorrent, ?_⟩⟩
          rw [if_pos htorrent]
          by_cases hempty : data = []
          · rw [if_pos hempty, if_neg (fun h => h.2.1 hempty)]
            exact .inl ⟨rfl, _, rfl⟩
          rw [if_neg hempty]
          by_cases hlarge : maxTorrentSize < data.length
          · rw [if_pos hlarge, if_neg (fun h => Nat.not_lt.mpr h.2.2.1 hlarge)]
            exact .inl ⟨rfl, _, rfl⟩
          rw [if_neg hlarge]
          by_cases hparse : (lib.parse data).isNone = true
          · have hnot : ¬ (lib.parse data).isSome = true := by simpa using hparse
            rw [if_pos hparse, if_neg (fun h => hnot h.2.2.2)]
            exact .inl ⟨rfl, _, rfl⟩
          · have hsome : (lib.parse data).isSome = true := by
              simpa [Option.isSome_iff_ne_none] using hparse
            rw [if_neg hparse, if_pos ⟨htorrent, hempty, Nat.not_lt.mp hlarge, hsome⟩]
            exact .inr ⟨rfl, rfl⟩
        · rw [if_neg htorrent, if_neg (fun h => htorrent h.1)]
          exact .inl ⟨rfl, .inr rfl⟩

lemma ne_statsIno_of_file {s : FsService} (h : Reserved s.inodes) {ino parent : ℕ} {name : Str}
    {data : List UInt8} {unlinked : Bool}
    (hget : s.inodes.get ino = some (.file parent name data unlinked))
    (hfile : unlinked = true ∨ isTorrentName name = true) : ino ≠ statsIno := by
  rintro rfl
  rw [h statsIno (by decide)] at hget
  have hstats : InodeManager.new.inodes.get statsIno =
      some (.file rootIno ".stats".toList [] false) := by decide
  rw [hstats] at hget
  obtain ⟨-, rfl, -, rfl⟩ : rootIno = parent ∧ ".stats".toList = name ∧ [] = data ∧
      false = unlinked := by simpa using hget
  revert hfile
  decide

lemma Agreement.release (h : Agreement lib s released) (f : DbFaults) (fh : ℕ) :
    Agreement lib (s.release lib f fh).2 (releasedAfter lib s released (.release f fh)) := by
  have hclosed : Agreement lib (s.closeHandle fh) released := h.handles _ _
  show Agreement lib _ (match accepted lib s fh with
    | some ino => insert ino released
    | none => released)
  rcases release_cases lib s f fh with ⟨hnone, hsame | hsame⟩ |
    ⟨ino, parent, name, data, unlinked, hget, ⟨hnone, rfl, hsame⟩ |
      ⟨rfl, htorrent, ⟨hnone, result, hsame⟩ | ⟨hsome, hsame⟩⟩⟩
  · rw [hnone, hsame]
    exact h
  · rw [hnone, hsame]
    exact hclosed
  · rw [hnone, hsame]
    have hino := h.firstIno_le_of_file hget (ne_statsIno_of_file h.reserved hget (.inl rfl))
    obtain ⟨htree, hchange, hgone⟩ := h.tree.retire hino hget (.inr rfl)
    -- the file had no name any more
    have hbefore : ∀ location, ¬ Located s.inodes ino location := by
      refine fun location => not_located_of_not_linked fun d hd => ?_
      rw [hget, Option.some.injEq] at hd
      exact hd ▸ rfl
    have hlocations : locations (s.inodes.erase ino) released = locations s.inodes released := by
      refine locations_congr fun i _ location => ?_
      by_cases hi : i = ino
      · subst hi
        exact iff_of_false (not_located_of_not_linked hgone) (hbefore location)
      · exact hchange.located_iff hi location
    refine hclosed.leaves ⟨rfl, rfl, rfl, rfl, rfl, rfl, rfl⟩ htree (fun i hi => ?_) h.sound ?_
    · exact hchange.others i (Nat.ne_of_lt (hi.trans_le hino))
    · show Landed s.names.torrents.names (locations (s.inodes.erase ino) released) s.threads
      rw [hlocations]
      exact h.landed
  · rw [hnone, hsame]
    have hino := h.firstIno_le_of_file hget (ne_statsIno_of_file h.reserved hget (.inr htorrent))
    exact hclosed.discard hino hget f result
  · rw [hsome, hsame]
    have hino := h.firstIno_le_of_file hget (ne_statsIno_of_file h.reserved hget (.inr htorrent))
    exact hclosed.startPersist hino hget data

lemma Agreement.persist (h : Agreement lib s released) {f : DbFaults} {i : ℕ}
    (hsucceeds : ∀ thread ∈ s.threads[i]?,
      (persistTorrent lib f.fault thread.data thread.key.1 thread.key.2
        s.names.torrents).1.isSome = true)
    (hstep : s.persistStep lib f i = some s') : Agreement lib s' released := by
  unfold persistStep at hstep
  split at hstep
  · next key data hthread =>
    have hsome := hsucceeds _ hthread
    dsimp only at hsome hstep
    rw [if_pos hsome, Option.some.injEq] at hstep
    subst hstep
    have hsound := (persistTorrent_spec lib h.sound f.fault data key.1 key.2).sound
    obtain ⟨c, -, hholdings⟩ := holdings_persistTorrent h.sound hsome
    have hkeys : (s.threads.set i ⟨key, data, true⟩).map PersistThread.key =
        s.threads.map PersistThread.key := by
      refine ext_getElem? fun j => ?_
      rw [getElem?_map, getElem?_map, getElem?_set]
      split
      · next hj =>
        subst hj
        rw [hthread, if_pos (List.getElem?_eq_some_iff.mp hthread).1]
        rfl
      · rfl
    refine ⟨h.service, h.tree, h.reserved, h.created, hsound, ?_, fun k => ?_, ?_⟩
    · show Landed (persistTorrent lib f.fault data key.1 key.2 s.names.torrents).2.names _ _
      rw [TorrentTables.names_of_update hholdings]
      exact h.landed.persist hthread
    · show k ∈ s.processingTorrents ↔ ∃ thread ∈ s.threads.set i _, thread.key = k
      rw [h.processing, ← mem_map, ← mem_map, hkeys]
    · show ((s.threads.set i _).map PersistThread.key).Nodup
      rw [hkeys]
      exact h.distinct
  · cases hstep

lemma Agreement.finish (h : Agreement lib s released) {i : ℕ}
    (hstep : s.finishStep i = some s') : Agreement lib s' released := by
  unfold finishStep at hstep
  split at hstep
  · next key data hthread =>
    cases hstep
    refine ⟨h.service, h.tree, h.reserved, h.created, h.sound, h.landed.finish hthread,
      fun k => ?_, ?_⟩
    · show k ∈ s.processingTorrents.erase key ↔ ∃ thread ∈ s.threads.eraseIdx i, thread.key = k
      rw [Finset.mem_erase, h.processing]
      constructor
      · rintro ⟨hne, thread, hmem, rfl⟩
        obtain ⟨j, hj⟩ := List.mem_iff_getElem?.mp hmem
        refine ⟨thread, List.mem_eraseIdx_iff_getElem?.mpr ⟨j, ?_, hj⟩, rfl⟩
        rintro rfl
        rw [hthread, Option.some.injEq] at hj
        exact hne (hj ▸ rfl)
      · rintro ⟨thread, hmem, rfl⟩
        obtain ⟨j, hne, hj⟩ := List.mem_eraseIdx_iff_getElem?.mp hmem
        refine ⟨fun heq => hne ?_, thread, mem_of_getElem? hj, rfl⟩
        -- the keys of the threads differ
        have hlt : j < (s.threads.map PersistThread.key).length := by
          rw [length_map]
          exact (List.getElem?_eq_some_iff.mp hj).1
        refine (getElem?_inj hlt h.distinct).mp ?_
        rw [getElem?_map, getElem?_map, hj, hthread]
        exact congrArg some heq
    · show ((s.threads.eraseIdx i).map PersistThread.key).Nodup
      exact h.distinct.sublist ((eraseIdx_sublist _ _).map _)
  · cases hstep

end Releases

end FsService

end TorrentFs.Fuse
