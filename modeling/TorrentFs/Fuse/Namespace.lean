import TorrentFs.Fuse.Agreement

/-!
# The names in the database and the names in the tree

Every call that renames or removes a file waits for the thread at work on its name; the rename of a
directory waits for none, and its statements misplace some rows. When no directory is renamed in
such a moment, the rows are those of the released files whenever no thread is left.
-/

namespace TorrentFs.Fuse

open Text Word Sql Joined NameTree Db Services InodeManager List FinMap TorrentTables Finset

namespace FsService

/-! ### Renames -/

section Renames

variable {lib : Libraries} {s after : FsService} {released : Finset ℕ} {f : DbFaults}
  {ino parent newparent : ℕ} {name newname : Str} {data : List UInt8} {pathT : List Str}
  {torrents : TorrentTables}

lemma names_renameTorrentByName {t t' : TorrentTables} {fault : Option SqlError}
    {oldName oldSourcePath newName newSourcePath : Str}
    (h : renameTorrentByName t fault oldName oldSourcePath newName newSourcePath = (.ok (), t')) :
    ((oldSourcePath, oldName) ∈ t.names →
        t'.names = insert (newSourcePath, newName) (t.names \ {(oldSourcePath, oldName)})) ∧
      ((oldSourcePath, oldName) ∉ t.names → t' = t) := by
  unfold renameTorrentByName at h
  cases fault with
  | some e => cases (Prod.mk.inj h).1
  | none =>
    cases hat : t.sourceAt oldSourcePath oldName with
    | none =>
      rw [hat] at h
      refine ⟨?_, fun _ => (Prod.mk.inj h).2.symm⟩
      rintro ⟨source, hsource, hlocation⟩
      rw [TorrentTables.sourceAt_eq_some.mpr ⟨hsource, hlocation⟩] at hat
      cases hat
    | some source =>
      rw [hat] at h
      obtain ⟨hsource, hlocation⟩ := TorrentTables.sourceAt_eq_some.mp hat
      refine ⟨fun _ => ?_, fun hnot => absurd ⟨source, hsource, hlocation⟩ hnot⟩
      rw [names_renameTorrent hsource h, hlocation]

lemma sound_renameTorrentByName {t t' : TorrentTables} {fault : Option SqlError}
    {oldName oldSourcePath newName newSourcePath : Str} (hsound : t.Sound lib.contentHash)
    (h : renameTorrentByName t fault oldName oldSourcePath newName newSourcePath = (.ok (), t')) :
    t'.Sound lib.contentHash := by
  unfold renameTorrentByName at h
  split at h
  · cases (Prod.mk.inj h).1
  · split at h
    · exact (Prod.mk.inj h).2 ▸ hsound
    · next source _ =>
      have hrenamed := sound_renameTorrent hsound none source.id newName
        newSourcePath
      rw [h] at hrenamed
      exact hrenamed

section

variable (h : Agreement lib s released) (hino : firstIno ≤ ino)
  (hget : s.inodes.get ino = some (.file parent name data false))
include h hino hget

lemma Agreement.moveFile (hpath : DirPath s.inodes newparent pathT)
    (hname : newname ≠ [] ∧ '/' ∉ newname)
    (hfree : findChildByName s.inodes newparent newname = none)
    (hidle : (extractSourcePath s.inodes parent, name) ∉ s.processingTorrents)
    (hdb : renameTorrentByName s.names.torrents f.fault name (extractSourcePath s.inodes parent)
      newname (extractSourcePath s.inodes newparent) = (.ok (), torrents))
    (hafter : Leaves s (s.inodes.insert ino (.file newparent newname data false)) torrents after) :
    Agreement lib after released := by
  have hnot := notDirectory_of_file hget
  have hchange := fileChange_insert hnot newparent newname data false
  have hold := h.tree.located hino hget
  obtain ⟨hmoves, hkeeps⟩ := names_renameTorrentByName hdb
  have htree : Tree (s.inodes.insert ino (.file newparent newname data false))
      s.inodeMgr.nextIno :=
    h.tree.replaceFile hino (h.tree.fresh ino _ hget) hnot (fun _ => ⟨pathT, hpath⟩)
      (fun _ => hname) fun _ _ _ _ hgeti hlinked => findChildByName_eq_none hfree hgeti hlinked
  refine h.leaves hafter htree (fun i hi => ?_) (sound_renameTorrentByName h.sound hdb) ?_
  · exact hchange.others i (Nat.ne_of_lt (hi.trans_le hino))
  by_cases hmem : ino ∈ released
  · have hrow := h.mem_names hidle ⟨ino, hmem, hold⟩
    rw [hmoves hrow, h.tree.extractSourcePath_eq hpath,
      locations_moveFile h.tree (fun i hne => hchange.located_iff hne) hold
        (fun location => located_insert_file_self hnot hino hpath) hmem]
    exact h.landed.move (h.idle hidle)
  · -- a file that was never released has no row
    have hrow : (extractSourcePath s.inodes parent, name) ∉ s.names.torrents.names :=
      fun hrow => h.tree.notMem_locations hold hmem (h.landed.subset hrow)
    rw [hkeeps hrow, locations_congr fun i hi => hchange.located_iff fun heq => hmem (heq ▸ hi)]
    exact h.landed

lemma Agreement.moveFileOver {target : ℕ} {targetData : List UInt8} (hne : target ≠ ino)
    (htarget : s.inodes.get target = some (.file newparent newname targetData false))
    (hpath : DirPath s.inodes newparent pathT) (hname : newname ≠ [] ∧ '/' ∉ newname)
    (hidle : (extractSourcePath s.inodes parent, name) ∉ s.processingTorrents)
    {removed : Option (ℕ × Str)} {purge : Option Str}
    (hdb : s.names.torrents.renameTorrentOverwriting f.fault f.checkFails name
      (extractSourcePath s.inodes parent) newname (extractSourcePath s.inodes newparent) =
        (.ok (.moved removed), purge, torrents))
    (hafter : Leaves s ((s.moveFile ino newparent newname data).inodeMgr.unlinkFile target)
      torrents after) : Agreement lib after released := by
  have htargetino : firstIno ≤ target := h.tree.firstIno_le_of_parent htarget hpath
  have hold := h.tree.located hino hget
  have hover := h.tree.located htargetino htarget
  have hkeys : (extractSourcePath s.inodes parent, name) ≠
      (extractSourcePath s.inodes newparent, newname) := by
    intro heq
    exact hne (h.tree.eq_of_located hover (heq ▸ hold))
  obtain ⟨hrow, hnames⟩ := names_renameTorrentOverwriting hkeys hdb
  have hsound := (sound_renameTorrentOverwriting h.sound f.fault f.checkFails name
    (extractSourcePath s.inodes parent) newname (extractSourcePath s.inodes newparent)).1
  rw [hdb] at hsound
  have hmem : ino ∈ released := by
    obtain ⟨i, hi, hlocated⟩ := h.landed.subset hrow
    exact h.tree.eq_of_located hlocated hold ▸ hi
  -- first the other file goes, then the name is free
  have hunlink : (s.moveFile ino newparent newname data).inodeMgr.unlinkFile target =
      (s.inodeMgr.unlinkFile target).insert ino (.file newparent newname data false) :=
    unlinkFile_insert rfl rfl hne htarget
  set m₁ := s.inodeMgr.unlinkFile target
  obtain ⟨htree₁, hchange₁, hgone⟩ :=
    h.tree.retire htargetino htarget ((unlinkFile_cases htarget).imp And.right And.right)
  have hget₁ : m₁.get ino = some (.file parent name data false) :=
    (hchange₁.others ino hne.symm).trans hget
  have hpath₁ : DirPath m₁ newparent pathT := by
    rw [DirPath, hchange₁.dirLinks_eq]
    exact hpath
  have hnot₁ := notDirectory_of_file hget₁
  have hchange := fileChange_insert hnot₁ newparent newname data false
  have htree : Tree (m₁.insert ino (.file newparent newname data false)) s.inodeMgr.nextIno :=
    htree₁.replaceFile hino (htree₁.fresh ino _ hget₁) hnot₁ (fun _ => ⟨pathT, hpath₁⟩)
      (fun _ => hname) fun _ _ _ _ hi hlinked =>
        h.tree.free_of_retired htargetino htarget hpath hchange₁ hgone hi hlinked
  have hold₁ : Located m₁ ino (extractSourcePath s.inodes parent, name) :=
    (hchange₁.located_iff hne.symm _).mpr hold
  rw [hunlink] at hafter
  refine h.leaves hafter htree (fun i hi => ?_) hsound ?_
  · rw [hchange.others i (Nat.ne_of_lt (hi.trans_le hino)),
      hchange₁.others i (Nat.ne_of_lt (hi.trans_le htargetino))]
  · rw [hnames, locations_moveFile htree₁ (fun i hne => hchange.located_iff hne) hold₁
      (fun location => located_insert_file_self hnot₁ hino hpath₁) hmem,
      locations_retireFile h.tree (fun i hne => hchange₁.located_iff hne) hover
        fun _ => not_located_of_not_linked hgone,
      ← h.tree.extractSourcePath_eq hpath, sdiff_right_comm, Set.insert_sdiff_singleton]
    exact h.landed.move (h.idle hidle)

end

lemma Agreement.childSourcePath_eq (h : Agreement lib s released)
    (hpath : DirPath s.inodes newparent pathT) (newname : Str) :
    childSourcePath s.inodes newparent newname = joined '/' (pathT ++ [newname]) := by
  unfold childSourcePath
  by_cases hmeta : newparent = metadataIno
  · subst hmeta
    obtain rfl := Spells.path_unique dirLinks_metadataIno hpath .root
    rw [if_pos rfl, nil_append, joined_singleton]
  · have hne : pathT ≠ [] := by
      rintro rfl
      exact hmeta (Spells.eq_of_path h.tree.distinctSiblings hpath .root)
    have htext := (h.tree.sepFree hpath).joined_ne_nil hne
    rw [if_neg hmeta, h.tree.extractSourcePath_eq hpath, joined_append hne (by simp)]
    rw [if_neg htext, joined_singleton]

def AtOrBelow (directory path : Str) : Prop := path = directory ∨ pathPrefix directory <+: path

instance (directory path : Str) : Decidable (AtOrBelow directory path) :=
  inferInstanceAs (Decidable (path = directory ∨ pathPrefix directory <+: path))

lemma renamedPath_of_not_atOrBelow {oldPath newPath path : Str}
    (h : ¬ AtOrBelow oldPath path) : renamedPath oldPath newPath path = path := by
  obtain ⟨hself, hbelow⟩ := not_or.mp h
  rw [renamedPath, if_neg hself, if_neg (mt List.isPrefixOf_iff_prefix.mp hbelow)]

/-- No thread is at work below the directory, and the statements give every row the path it should
have. -/
structure AtRest (s : FsService) (ino newparent : ℕ) (newname : Str) : Prop where
  idle : ∀ thread ∈ s.threads, ¬ AtOrBelow (extractSourcePath s.inodes ino) thread.key.1
  rewritten : ∀ source ∈ s.names.torrents.sources.rows,
    RewrittenExactly (extractSourcePath s.inodes ino) (childSourcePath s.inodes newparent newname)
      source.sourcePath

lemma outside_of_not_atOrBelow {m : FinMap ℕ InodeData} {nextIno i target : ℕ}
    {pathD pathT : List Str} (h : Tree m nextIno) (hd : DirPath m i pathD) (hne : pathD ≠ [])
    (ht : DirPath m target pathT)
    (houtside : ¬ AtOrBelow (extractSourcePath m i) (extractSourcePath m target)) :
    ¬ pathD <+: pathT := by
  rintro ⟨rest, rfl⟩
  rw [h.extractSourcePath_eq hd, h.extractSourcePath_eq ht] at houtside
  by_cases hempty : rest = []
  · exact houtside (.inl (by rw [hempty, append_nil]))
  · refine houtside (.inr ⟨joined '/' rest, ?_⟩)
    rw [joined_append hne hempty, pathPrefix, append_assoc, singleton_append]

lemma Agreement.moveDirectory (h : Agreement lib s released) (hino : firstIno ≤ ino)
    (hget : s.inodes.get ino = some (.directory parent name))
    (hpath : DirPath s.inodes newparent pathT) (hname : newname ≠ [] ∧ '/' ∉ newname)
    (hfree : findChildByName s.inodes newparent newname = none)
    (houtside : ¬ AtOrBelow (extractSourcePath s.inodes ino) (extractSourcePath s.inodes newparent))
    (hrest : AtRest s ino newparent newname) {names : NameTables}
    (hdb : s.names.renameMetadataDirectory f.fault (extractSourcePath s.inodes ino) newname
      (childSourcePath s.inodes newparent newname) = (.ok (), names))
    (hafter : Leaves s (s.inodes.insert ino (.directory newparent newname)) names.torrents after) :
    Agreement lib after released := by
  obtain ⟨pathP, hpathP⟩ := h.tree.placed ino _ hino hget rfl
  have hpathD : DirPath s.inodes ino (pathP ++ [name]) :=
    .child (dirLinks_eq_some.mpr ⟨hino, hget⟩) hpathP
  have hold := h.tree.extractSourcePath_eq hpathD
  have hnew := h.childSourcePath_eq hpath newname
  have hnotbelow : ¬ pathP ++ [name] <+: pathT :=
    outside_of_not_atOrBelow h.tree hpathD (by simp) hpath houtside
  refine h.leaves hafter ?_ (fun i hi => ?_) (NameTables.sound_renameMetadataDirectory h.sound hdb)
    ?_
  · exact h.tree.moveDirectory hino (h.tree.fresh ino _ hget) hpathD hpath hnotbelow hname hfree
  · exact get_insert_ne _ (Nat.ne_of_lt (hi.trans_le hino)) _
  · rw [NameTables.names_renameMetadataDirectory hdb,
      locations_moveDirectory h.tree hino hget hpathD hpath hnotbelow, ← hold, ← hnew]
    -- on the paths of the rows the statements do what the tree does
    have hrows : (fun name : Str × Str => (updatedPath (extractSourcePath s.inodes ino)
          (childSourcePath s.inodes newparent newname) name.1, name.2)) '' s.names.torrents.names =
        (fun name => (renamedPath (extractSourcePath s.inodes ino)
          (childSourcePath s.inodes newparent newname) name.1, name.2)) ''
            s.names.torrents.names := by
      refine Set.image_congr ?_
      rintro _ ⟨source, hsource, rfl⟩
      exact congrArg (·, _) (updatedPath_eq_iff.mpr (hrest.rewritten source hsource))
    rw [hrows]
    refine h.landed.image fun thread hthread => ?_
    rw [renamedPath_of_not_atOrBelow (hrest.idle thread hthread)]

end Renames

/-! ### Runs -/

/-- What the kernel sees to: a directory entry is made in a directory, under a name without a slash,
and a directory is not moved below itself. The counter for inode numbers has not come to its end. -/
def FromKernel (s : FsService) : FsAction → Prop
  | .mknod parent name | .create parent name | .mkdir _ parent name =>
    (s.inodes.get parent).any InodeData.isFile = false ∧ (name ≠ [] ∧ '/' ∉ name) ∧
      s.inodeMgr.nextIno + 1 < 2 ^ 64
  | .rename _ parent name newparent newname =>
    (s.inodes.get newparent).any InodeData.isFile = false ∧ (newname ≠ [] ∧ '/' ∉ newname) ∧
      ∀ ino ∈ findChildByName s.inodes parent name,
        ¬ AtOrBelow (extractSourcePath s.inodes ino) (extractSourcePath s.inodes newparent)
  | _ => True

instance (s : FsService) : DecidablePred (FromKernel s)
  | .mknod _ _ | .create _ _ | .mkdir _ _ _ => inferInstanceAs (Decidable (_ ∧ _ ∧ _))
  | .rename _ _ _ _ _ => inferInstanceAs (Decidable (_ ∧ _ ∧ ∀ ino ∈ _, _))
  | .openFile _ | .write _ _ _ | .setattr _ _ | .release _ _ | .unlink _ _ _ | .rmdir _ _ _
  | .persist _ _ | .finish _ => inferInstanceAs (Decidable True)

def isDatabaseError : Except FsError Unit → Bool
  | .error (.database _) => true
  | _ => false

/-- A thread that inserts succeeds, and a rename is not refused by the database. -/
def WritesSucceed (lib : Libraries) (s : FsService) : FsAction → Prop
  | .persist f i => ∀ thread ∈ s.threads[i]?,
      (persistTorrent lib f.fault thread.data thread.key.1 thread.key.2
        s.names.torrents).1.isSome = true
  | .rename f parent name newparent newname =>
    isDatabaseError (s.rename f parent name newparent newname).1 = false
  | _ => True

instance (lib : Libraries) (s : FsService) : DecidablePred (WritesSucceed lib s)
  | .persist _ _ => inferInstanceAs (Decidable (∀ thread ∈ _, _))
  | .rename f parent name newparent newname => inferInstanceAs
      (Decidable (isDatabaseError (s.rename f parent name newparent newname).1 = false))
  | .mknod _ _ | .create _ _ | .mkdir _ _ _ | .openFile _ | .write _ _ _ | .setattr _ _
  | .release _ _ | .unlink _ _ _ | .rmdir _ _ _ | .finish _ => inferInstanceAs (Decidable True)

def DirectoriesAtRest (s : FsService) : FsAction → Prop
  | .rename _ parent name newparent newname =>
    ∀ ino ∈ findChildByName s.inodes parent name,
      (s.inodes.get ino).any InodeData.isFile = false →
      findChildByName s.inodes newparent newname = none → AtRest s ino newparent newname
  | _ => True

instance (s : FsService) (ino newparent : ℕ) (newname : Str) :
    Decidable (AtRest s ino newparent newname) :=
  decidable_of_iff ((∀ thread ∈ s.threads,
      ¬ AtOrBelow (extractSourcePath s.inodes ino) thread.key.1) ∧
    ∀ source ∈ s.names.torrents.sources.rows, RewrittenExactly (extractSourcePath s.inodes ino)
      (childSourcePath s.inodes newparent newname) source.sourcePath)
    ⟨fun h => ⟨h.1, h.2⟩, fun h => ⟨h.idle, h.rewritten⟩⟩

instance (s : FsService) : DecidablePred (DirectoriesAtRest s)
  | .rename _ _ _ _ _ => inferInstanceAs (Decidable (∀ ino ∈ _, _ → _ → _))
  | .mknod _ _ | .create _ _ | .mkdir _ _ _ | .openFile _ | .write _ _ _ | .setattr _ _
  | .release _ _ | .unlink _ _ _ | .rmdir _ _ _ | .persist _ _ | .finish _ =>
    inferInstanceAs (Decidable True)

section Steps

variable {lib : Libraries} {s s' : FsService} {released : Finset ℕ} {f : DbFaults}
  {parent newparent : ℕ} {name newname : Str}

section

variable (h : Agreement lib s released)
include h

lemma Agreement.renameDirectory {ino : ℕ} {pathT : List Str} (hino : firstIno ≤ ino)
    (hget : s.inodes.get ino = some (.directory parent name))
    (hpath : DirPath s.inodes newparent pathT) (hname : newname ≠ [] ∧ '/' ∉ newname)
    (hfree : findChildByName s.inodes newparent newname = none)
    (houtside : ¬ AtOrBelow (extractSourcePath s.inodes ino) (extractSourcePath s.inodes newparent))
    (hrest : AtRest s ino newparent newname)
    (hwrites : isDatabaseError (s.renameDirectory f ino newparent newname).1 = false) :
    Agreement lib (s.renameDirectory f ino newparent newname).2 released := by
  revert hwrites
  unfold FsService.renameDirectory
  rcases hdb : s.names.renameMetadataDirectory f.fault (extractSourcePath s.inodes ino) newname
    (childSourcePath s.inodes newparent newname) with ⟨outcome, names⟩
  simp only [h.service, hdb]
  cases outcome with
  | error e => exact fun hwrites => absurd hwrites (by simp [isDatabaseError])
  | ok _ =>
    intro _
    exact h.moveDirectory hino hget hpath hname hfree houtside hrest hdb
      ⟨rfl, rfl, rfl, rfl, rfl, rfl, rfl⟩

lemma Agreement.renameFile {ino : ℕ} {pathT : List Str} {data : List UInt8} {target : Option ℕ}
    (hino : firstIno ≤ ino) (hget : s.inodes.get ino = some (.file parent name data false))
    (hpath : DirPath s.inodes newparent pathT) (hname : newname ≠ [] ∧ '/' ∉ newname)
    (htarget : findChildByName s.inodes newparent newname = target) (hne : target ≠ some ino)
    (hfile : ∀ t ∈ target, (s.inodes.get t).any InodeData.isFile = true) (hwrites : isDatabaseError
      (s.renameFile f ino parent name newparent newname target).1 = false) :
    Agreement lib (s.renameFile f ino parent name newparent newname target).2 released := by
  obtain ⟨pathP, hpathP⟩ := h.tree.placed ino _ hino hget rfl
  -- the source paths are those from before the move
  have hold : extractSourcePath (s.moveFile ino newparent newname data).inodes parent =
      extractSourcePath s.inodes parent :=
    h.tree.extractSourcePath_replaceFile hino hget hpathP _ _ _ _
  have hnew : extractSourcePath (s.moveFile ino newparent newname data).inodes newparent =
      extractSourcePath s.inodes newparent :=
    h.tree.extractSourcePath_replaceFile hino hget hpath _ _ _ _
  rcases renameFile_cases hget h.service f newparent newname target with
    ⟨e, heq⟩ | ⟨-, -, hidle, hexits⟩
  · rw [heq]
    exact h
  rw [hold] at hidle
  rcases hexits with ⟨rfl, torrents, ⟨e, -, heq⟩ | ⟨after, hdb, heq, hafter⟩⟩ |
    ⟨targetIno, removed, purge, torrents, after, rfl, -, hdb, heq, hafter⟩
  · rw [heq] at hwrites
    cases hwrites
  · rw [heq]
    rw [hold, hnew] at hdb
    exact h.moveFile hino hget hpath hname htarget hidle hdb hafter
  · rw [heq]
    rw [hold, hnew] at hdb
    obtain ⟨targetData, hgett⟩ := file_of_findChildByName htarget (hfile targetIno rfl)
    exact h.moveFileOver hino hget (fun heq => hne (heq ▸ rfl)) hgett hpath hname hidle hdb hafter

lemma Agreement.rename (hkernel : FromKernel s (.rename f parent name newparent newname))
    (hwrites : WritesSucceed lib s (.rename f parent name newparent newname))
    (hrest : DirectoriesAtRest s (.rename f parent name newparent newname)) :
    Agreement lib (s.rename f parent name newparent newname).2 released := by
  obtain ⟨hdir, hname, houtside⟩ := hkernel
  change isDatabaseError (s.rename f parent name newparent newname).1 = false at hwrites
  rcases rename_cases s f parent name newparent newname with ⟨e, heq⟩ |
    ⟨hguards, ino, hfind, ⟨-, heq⟩ | ⟨hget, hfree, heq⟩ |
      ⟨data, target, hget, htarget, hne, hfile, heq⟩⟩
  · rw [heq]
    exact h
  · rw [heq]
    exact h
  · obtain ⟨pathT, hpath⟩ := h.exists_dirPath hguards.newparentChild hdir
    rw [heq] at hwrites ⊢
    exact h.renameDirectory (h.firstIno_le_of_child hget hguards.parentChild) hget hpath hname
      hfree (houtside ino hfind) (hrest ino hfind (by rw [hget]; rfl) hfree) hwrites
  · obtain ⟨pathT, hpath⟩ := h.exists_dirPath hguards.newparentChild hdir
    rw [heq] at hwrites ⊢
    exact h.renameFile (h.firstIno_le_of_child hget hguards.parentChild) hget hpath hname htarget
      hne hfile hwrites

lemma Agreement.addChecked {d : InodeData} {file : Bool}
    (hdir : (s.inodes.get d.parent).any InodeData.isFile = false)
    (hname : d.name ≠ [] ∧ '/' ∉ d.name) (hroom : s.inodeMgr.nextIno + 1 < 2 ^ 64)
    (hcheck : s.checkNew d.parent d.name file = .ok ()) : Agreement lib (s.addInode d) released :=
  h.addInode (checkNew_eq_ok hcheck).1 hdir hname (checkNew_eq_ok hcheck).2 hroom

lemma Agreement.create (hkernel : FromKernel s (.create parent name)) :
    Agreement lib (s.mknod parent name).2 released ∧
      Agreement lib (s.create parent name).2 released := by
  obtain ⟨hdir, hname, hroom⟩ := hkernel
  unfold FsService.mknod FsService.create
  cases hcheck : s.checkNew parent name true with
  | error e => exact ⟨h, h⟩
  | ok _ =>
    have hadded : Agreement lib (s.addInode (.file parent name [] false)) released :=
      h.addChecked hdir hname hroom hcheck
    exact ⟨hadded, hadded.handles _ _⟩

lemma Agreement.mkdir (hkernel : FromKernel s (.mkdir f parent name)) :
    Agreement lib (s.mkdir f parent name).2 released := by
  obtain ⟨hdir, hname, hroom⟩ := hkernel
  unfold FsService.mkdir
  cases hcheck : s.checkNew parent name false with
  | error e => exact h
  | ok _ =>
    have hadded : Agreement lib (s.addInode (.directory parent name)) released :=
      h.addChecked hdir hname hroom hcheck
    dsimp only
    rw [if_pos h.service]
    exact hadded.leaves ⟨rfl, rfl, rfl, rfl, rfl, rfl, rfl⟩ hadded.tree (fun _ _ => rfl)
      hadded.sound hadded.landed

lemma Agreement.step {a : FsAction} (hkernel : FromKernel s a) (hwrites : WritesSucceed lib s a)
    (hrest : DirectoriesAtRest s a) (hstep : FsService.step lib s a = some s') :
    Agreement lib s' (releasedAfter lib s released a) := by
  cases a with
  | mknod parent name =>
    cases hstep
    exact (h.create hkernel).1
  | create parent name =>
    cases hstep
    exact (h.create hkernel).2
  | mkdir f parent name =>
    cases hstep
    exact h.mkdir hkernel
  | openFile ino =>
    cases hstep
    exact h.openFile ino
  | write ino offset data =>
    cases hstep
    exact h.write ino offset data
  | setattr ino size =>
    cases hstep
    exact h.setattr ino size
  | release f fh =>
    cases hstep
    exact h.release f fh
  | unlink f parent name =>
    cases hstep
    exact h.unlink f parent name
  | rmdir f parent name =>
    cases hstep
    exact h.rmdir f parent name
  | rename f parent name newparent newname =>
    cases hstep
    exact h.rename hkernel hwrites hrest
  | persist f i => exact h.persist hwrites hstep
  | finish i => exact h.finish hstep

end

end Steps

/-- The service, with the files that have been released with a valid torrent. -/
structure Observed where
  service : FsService
  released : Finset ℕ

def Observed.step (lib : Libraries) (o : Observed) (a : FsAction) : Option Observed :=
  (o.service.step lib a).map fun s => ⟨s, releasedAfter lib o.service o.released a⟩

def Observed.Agrees (lib : Libraries) (o : Observed) : Prop :=
  Agreement lib o.service o.released

/-- The steps are requests of the kernel or of the threads, the database does what it is asked, and
directories are at rest when they are renamed. -/
structure Orderly (lib : Libraries) (o : Observed) (a : FsAction) : Prop where
  kernel : FromKernel o.service a
  writes : WritesSucceed lib o.service a
  atRest : DirectoriesAtRest o.service a

instance (lib : Libraries) (o : Observed) (a : FsAction) : Decidable (Orderly lib o a) :=
  decidable_of_iff (FromKernel o.service a ∧ WritesSucceed lib o.service a ∧
    DirectoriesAtRest o.service a)
    ⟨fun h => ⟨h.1, h.2.1, h.2.2⟩, fun h => ⟨h.kernel, h.writes, h.atRest⟩⟩

/-- In every run of releases with their threads, of renames, removals and all other calls, from a
state in which the tree and the database agree: when the database does what it is asked and
directories are renamed at rest, then, whenever no thread is left, the rows are the names of the
released files that are linked. -/
theorem names_eq_locations_of_run (lib : Libraries) (o o' : Observed) (as : List FsAction)
    (hstart : o.Agrees lib) (halong : Run.Along (Observed.step lib) (Orderly lib) o as)
    (hrun : Run.runFrom (Observed.step lib) o as = some o') (hidle : o'.service.threads = []) :
    o'.service.names.torrents.names = locations o'.service.inodes o'.released := by
  have hend : o'.Agrees lib := by
    refine Run.invariant_of_run_along (fun o a o' h horderly hstep => ?_) hstart halong hrun
    obtain ⟨s', hs', rfl⟩ := Option.map_eq_some_iff.mp hstep
    exact h.step horderly.kernel horderly.writes horderly.atRest hs'
  have hlanded := hend.landed
  rw [hidle] at hlanded
  exact hlanded.eq_of_idle

lemma tree_new : Tree InodeManager.new.inodes InodeManager.new.nextIno := by
  have hkeys : ∀ ino ∈ InodeManager.new.inodes.keys, ino < firstIno := by decide
  have hlow : ∀ ino d, firstIno ≤ ino → InodeManager.new.inodes.get ino ≠ some d :=
    fun ino d hino hget => absurd (hkeys ino (mem_keys_of_get hget)) (Nat.not_lt.mpr hino)
  have hparents : ∀ ino ∈ InodeManager.new.inodes.keys, ∀ d ∈ InodeManager.new.inodes.get ino,
      d.parent ≤ rootIno := by decide
  exact {
    root := by decide
    metadata := by decide
    reserved := fun ino d _ hget => hparents ino (mem_keys_of_get hget) d hget
    first := le_rfl
    fresh := fun ino d hget => hkeys ino (mem_keys_of_get hget)
    placed := fun ino d hino hget => absurd hget (hlow ino d hino)
    named := fun ino d hino hget => absurd hget (hlow ino d hino)
    siblings := fun ino _ d _ hino _ hget => absurd hget (hlow ino d hino) }

lemma agrees_new (lib : Libraries) : Observed.Agrees lib ⟨new, ∅⟩ where
  service := rfl
  tree := tree_new
  reserved := fun _ _ => rfl
  created := fun _ hino => absurd hino (notMem_empty _)
  sound := sound_empty
  landed := by
    refine ⟨?_, ?_, forall_mem_nil _⟩
    · rintro _ ⟨source, hsource, -⟩
      exact absurd hsource not_mem_nil
    · rintro _ ⟨ino, hino, -⟩
      exact absurd hino (notMem_empty _)
  processing := fun _ => iff_of_false (notMem_empty _) (by rintro ⟨_, ⟨⟩, _⟩)
  distinct := nodup_nil

open PurgeSystem (sampleTorrent sampleLibraries)

def orderlyRename : List FsAction :=
  [.mkdir noFaults metadataIno "d".toList, .create 5 "a.torrent".toList,
    .write 6 0 (sampleTorrent '1'), .release noFaults 1, .persist noFaults 0, .finish 0,
    .rename noFaults metadataIno "d".toList metadataIno "e".toList]

lemma mem_names_iff {t : TorrentTables} {name : Str × Str} :
    name ∈ t.names ↔ name ∈ t.sources.rows.map TorrentSource.location :=
  List.mem_map.symm

theorem names_eq_locations_of_orderlyRename :
    ∃ o', Run.runFrom (Observed.step sampleLibraries) ⟨new, ∅⟩ orderlyRename =
        some o' ∧ ("e".toList, "a.torrent".toList) ∈ o'.service.names.torrents.names ∧
      o'.service.names.torrents.names = locations o'.service.inodes o'.released := by
  obtain ⟨o', hrun, hidle, hrow⟩ : ∃ o, Run.runFrom (Observed.step sampleLibraries)
      ⟨new, ∅⟩ orderlyRename = some o ∧ o.service.threads = [] ∧
      ("e".toList, "a.torrent".toList) ∈
        o.service.names.torrents.sources.rows.map TorrentSource.location := by decide +kernel
  refine ⟨o', hrun, mem_names_iff.mpr hrow, ?_⟩
  exact names_eq_locations_of_run sampleLibraries ⟨new, ∅⟩ o' orderlyRename
    (agrees_new _) (by decide +kernel) hrun hidle

def hastyRename : List FsAction :=
  [.mkdir noFaults metadataIno "d".toList, .create 5 "a.torrent".toList,
    .write 6 0 (sampleTorrent '1'), .release noFaults 1,
    .rename noFaults metadataIno "d".toList metadataIno "e".toList, .persist noFaults 0, .finish 0]

/-- All steps are requests the kernel makes and all writes succeed; in the end no thread is left,
the file is below `e` and its row below `d`. -/
theorem row_left_behind :
    ∃ o', Run.runFrom (Observed.step sampleLibraries) ⟨new, ∅⟩ hastyRename = some o' ∧
      Run.Along (Observed.step sampleLibraries) (fun o a => FromKernel o.service a ∧
          WritesSucceed sampleLibraries o.service a) ⟨new, ∅⟩ hastyRename ∧
      o'.service.threads = [] ∧ o'.service.names.torrents.sources.rows.map TorrentSource.location =
        [("d".toList, "a.torrent".toList)] ∧
      ("e".toList, "a.torrent".toList) ∈ locations o'.service.inodes o'.released ∧
      o'.service.names.torrents.names ≠ locations o'.service.inodes o'.released := by
  obtain ⟨o', hrun, hidle, hrows, hdir, hfile, hmem⟩ :
      ∃ o, Run.runFrom (Observed.step sampleLibraries) ⟨new, ∅⟩ hastyRename = some o ∧
        o.service.threads = [] ∧
        o.service.names.torrents.sources.rows.map TorrentSource.location =
          [("d".toList, "a.torrent".toList)] ∧
        o.service.inodes.get 5 = some (.directory metadataIno "e".toList) ∧
        o.service.inodes.get 6 = some (.file 5 "a.torrent".toList (sampleTorrent '1') false) ∧
        6 ∈ o.released := by decide +kernel
  have hpath : DirPath o'.service.inodes 5 ([] ++ ["e".toList]) :=
    .child (dirLinks_eq_some.mpr ⟨le_rfl, hdir⟩) .root
  have hlocated : ("e".toList, "a.torrent".toList) ∈
      locations o'.service.inodes o'.released :=
    ⟨6, hmem, by decide, 5, "a.torrent".toList, sampleTorrent '1', ["e".toList], hfile, hpath, rfl⟩
  refine ⟨o', hrun, by decide +kernel, hidle, hrows, hlocated, fun heq => ?_⟩
  rw [← heq, mem_names_iff, hrows] at hlocated
  exact absurd hlocated (by decide)

end FsService

end TorrentFs.Fuse
