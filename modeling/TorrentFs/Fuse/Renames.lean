import TorrentFs.Fuse.FsService

/-!
# The exits of a rename

A rename changes the tree first and the database afterwards, and puts the tree back at some of its
error exits. Here every exit is told apart.
-/

namespace TorrentFs.Fuse

open Text Sql Db Services InodeManager FinMap

namespace FsService

/-- The checks of `rename` before its branches. -/
structure RenameGuards (s : FsService) (parent newparent : ℕ) : Prop where
  parentNotData : isDataNamespace parent = false
  newparentNotData : isDataNamespace newparent = false
  parentExists : (s.inodes.contains parent || s.inodeMgr.dataInodes.contains parent) = true
  newparentExists :
    (s.inodes.contains newparent || s.inodeMgr.dataInodes.contains newparent) = true
  parentChild : isMetadataChild s.inodes parent = true
  newparentChild : isMetadataChild s.inodes newparent = true

def moveFile (s : FsService) (ino newparent : ℕ) (newname : Str) (data : List UInt8) : FsService :=
  s.setInodes (s.inodes.insert ino (.file newparent newname data false))

section Exits

variable {s : FsService} {f : DbFaults} {parent newparent ino : ℕ} {name newname : Str}

lemma setInodes_insert_insert {d d' : InodeData} (hget : s.inodes.get ino = some d) :
    s.setInodes ((s.inodes.insert ino d').insert ino d) = s := by
  have hsame : (s.inodes.insert ino d').insert ino d = s.inodes := by
    ext1 i
    by_cases hi : i = ino
    · subst hi
      rw [get_insert_self, hget]
    · rw [get_insert_ne _ hi, get_insert_ne _ hi]
  rw [hsame]
  rfl

lemma get_of_findChildByName {d : InodeData}
    (hfind : findChildByName s.inodes parent name = some ino) (hget : s.inodes.get ino = some d) :
    d.parent = parent ∧ d.name = name ∧ d.linked = true := by
  obtain ⟨d', hget', hchild⟩ := exists_of_findChildByName hfind
  obtain rfl := Option.some.inj (hget'.symm.trans hget)
  exact hchild

lemma unlink_cases (s : FsService) (f : DbFaults) (parent : ℕ) (name : Str) :
    (s.unlink f parent name).2 = s ∨ ∃ ino data removed after,
      isMetadataChild s.inodes parent = true ∧
      s.inodes.get ino = some (.file parent name data false) ∧
      (s.torrentService = true →
        (extractSourcePath s.inodes parent, name) ∉ s.processingTorrents) ∧
      s.removeTorrentAndDataState f (extractSourcePath s.inodes parent) name =
        (.ok removed, after) ∧
      (s.unlink f parent name).2 = after.setInodes (after.inodeMgr.unlinkFile ino) := by
  unfold unlink
  split
  · exact .inl rfl
  split
  · exact .inl rfl
  split
  · exact .inl rfl
  next hchild =>
  split
  · exact .inl rfl
  split
  · exact .inl rfl
  next ino hfind =>
  split
  · next fileParent filename data unlinked hget =>
    obtain ⟨rfl, rfl, hlinked⟩ := get_of_findChildByName hfind hget
    obtain rfl : unlinked = false := by simpa [InodeData.linked] using hlinked
    dsimp only [InodeData.parent, InodeData.name] at hchild ⊢
    have hchild : isMetadataChild s.inodes fileParent = true := by simpa using hchild
    split
    · unfold waitForPendingAdd
      by_cases hbusy : (extractSourcePath s.inodes fileParent, filename) ∈ s.processingTorrents
      · rw [if_pos hbusy]
        exact .inl rfl
      rw [if_neg hbusy]
      dsimp only
      rcases hremove : s.removeTorrentAndDataState f (extractSourcePath s.inodes fileParent)
        filename with ⟨e | removed, after⟩
      · -- an error leaves the service as it was
        unfold removeTorrentAndDataState at hremove
        repeat' split at hremove
        all_goals cases hremove <;> exact .inl rfl
      · exact .inr ⟨ino, data, removed, after, hchild, hget, fun _ => hbusy, rfl, rfl⟩
    · next hservice =>
      exact .inr ⟨ino, data, none, s, hchild, hget, fun h => absurd h hservice, if_neg hservice,
        rfl⟩
  · exact .inl rfl
  · exact .inl rfl

lemma rmdir_cases (s : FsService) (f : DbFaults) (parent : ℕ) (name : Str) :
    (s.rmdir f parent name).2 = s ∨ ∃ ino names, isMetadataChild s.inodes parent = true ∧
      s.inodes.get ino = some (.directory parent name) ∧
      (∀ i d, s.inodes.get i = some d → d.linked = true → d.parent ≠ ino) ∧
      (s.rmdir f parent name).2 = { (s.setInodes (s.inodes.erase ino)).setDataInodes
        (s.inodeMgr.dataInodes.retain (keepsAfterRmdir (extractSourcePath s.inodes ino))) with
        names } ∧ names.torrents = s.names.torrents := by
  unfold rmdir
  split
  · exact .inl rfl
  split
  · exact .inl rfl
  next hchild =>
  split
  · exact .inl rfl
  next ino hfind =>
  split
  · next dirParent dirName hget =>
    split
    · exact .inl rfl
    next hempty =>
    obtain ⟨rfl, rfl, -⟩ := get_of_findChildByName hfind hget
    have hleaf : ∀ i d, s.inodes.get i = some d → d.linked = true → d.parent ≠ ino := by
      intro i d hi hlinked hparent
      refine hempty ⟨i, mem_keys_of_get hi, ?_⟩
      rw [hi]
      simp [hparent, hlinked]
    dsimp only
    split
    · exact .inr ⟨ino, _, by simpa using hchild, hget, hleaf, rfl, rfl⟩
    · exact .inr ⟨ino, _, by simpa using hchild, hget, hleaf, rfl, rfl⟩
  · exact .inl rfl
  · exact .inl rfl

lemma rename_cases (s : FsService) (f : DbFaults) (parent : ℕ) (name : Str) (newparent : ℕ)
    (newname : Str) : (∃ e, s.rename f parent name newparent newname = (.error e, s)) ∨
      RenameGuards s parent newparent ∧ ∃ ino, findChildByName s.inodes parent name = some ino ∧
        ((findChildByName s.inodes newparent newname = some ino ∧
            s.rename f parent name newparent newname = (.ok (), s)) ∨
          (s.inodes.get ino = some (.directory parent name) ∧
            findChildByName s.inodes newparent newname = none ∧
            s.rename f parent name newparent newname = s.renameDirectory f ino newparent newname) ∨
          ∃ data target, s.inodes.get ino = some (.file parent name data false) ∧
            findChildByName s.inodes newparent newname = target ∧ target ≠ some ino ∧
            (∀ t ∈ target, (s.inodes.get t).any InodeData.isFile = true) ∧
            s.rename f parent name newparent newname =
              s.renameFile f ino parent name newparent newname target) := by
  unfold rename
  split
  · exact .inl ⟨_, rfl⟩
  next hdata =>
  split
  · exact .inl ⟨_, rfl⟩
  next hparent =>
  split
  · exact .inl ⟨_, rfl⟩
  next hnewparent =>
  split
  · exact .inl ⟨_, rfl⟩
  next hchild =>
  split
  · exact .inl ⟨_, rfl⟩
  next ino hfind =>
  simp only [Bool.or_eq_true, Bool.not_eq_true', not_or, Bool.not_eq_true,
    Bool.not_eq_false] at hdata hparent hnewparent hchild
  have hguards : RenameGuards s parent newparent :=
    ⟨hdata.1, hdata.2, by simpa using hparent, by simpa using hnewparent, hchild.1, hchild.2⟩
  obtain ⟨d, hget, hp, hn, hlinked⟩ := exists_of_findChildByName hfind
  cases hnew : findChildByName s.inodes newparent newname with
  | some target =>
    dsimp only
    split
    · next heq => exact .inr ⟨hguards, ino, hfind, .inl ⟨heq ▸ rfl, rfl⟩⟩
    next hne =>
    split
    · next hfiles =>
      rw [Bool.and_eq_true] at hfiles
      cases d with
      | directory p n =>
        rw [hget] at hfiles
        cases hfiles.1
      | file p n data unlinked =>
        obtain rfl : p = parent := hp
        obtain rfl : n = name := hn
        obtain rfl : unlinked = false := by simpa [InodeData.linked] using hlinked
        refine .inr ⟨hguards, ino, hfind,
          .inr (.inr ⟨data, some target, hget, rfl, ?_, ?_, rfl⟩)⟩
        · exact fun heq => hne (Option.some.inj heq)
        · rintro t ⟨⟩
          exact hfiles.2
    · exact .inl ⟨_, rfl⟩
  | none =>
    cases d with
    | directory p n =>
      obtain rfl : p = parent := hp
      obtain rfl : n = name := hn
      refine .inr ⟨hguards, ino, hfind, .inr (.inl ⟨hget, rfl, ?_⟩)⟩
      rw [hget]
      rfl
    | file p n data unlinked =>
      obtain rfl : p = parent := hp
      obtain rfl : n = name := hn
      obtain rfl : unlinked = false := by simpa [InodeData.linked] using hlinked
      refine .inr ⟨hguards, ino, hfind, .inr (.inr ⟨data, none, hget, rfl, ?_, ?_, ?_⟩)⟩
      · exact (Option.some_ne_none _).symm
      · exact fun t ht => by cases ht
      · rw [hget]
        rfl

/-- What a rename leaves: the tree and the sources are as given, the cached inodes and the directory
rows may be others, all else is as before. -/
structure Leaves (s : FsService) (inodes : FinMap ℕ InodeData) (torrents : TorrentTables)
    (after : FsService) : Prop where
  inodes : after.inodes = inodes
  torrents : after.names.torrents = torrents
  processing : after.processingTorrents = s.processingTorrents
  threads : after.threads = s.threads
  service : after.torrentService = s.torrentService
  openFiles : after.inodeMgr.openFiles = s.inodeMgr.openFiles
  nextIno : after.inodeMgr.nextIno = s.inodeMgr.nextIno

lemma renameFile_eq {data : List UInt8}
    (hget : s.inodes.get ino = some (.file parent name data false))
    (hservice : s.torrentService = true) (hname : isTorrentName name = true)
    (hnewname : isTorrentName newname = true) (f : DbFaults) (newparent : ℕ) (target : Option ℕ) :
    let moved := s.moveFile ino newparent newname data
    s.renameFile f ino parent name newparent newname target =
      s.renameInDatabase moved f target (extractSourcePath moved.inodes parent) name
        (extractSourcePath moved.inodes newparent) newname := by
  have hrestored : s.setInodes ((s.inodes.insert ino (.file newparent newname data false)).insert
      ino (.file parent name data false)) = s := setInodes_insert_insert hget
  have heq := congrArg (fun s' : FsService =>
    s'.renameInDatabase (s.moveFile ino newparent newname data) f target
      (extractSourcePath (s.moveFile ino newparent newname data).inodes parent) name
      (extractSourcePath (s.moveFile ino newparent newname data).inodes newparent) newname)
    hrestored
  simp only [renameFile, hname, hnewname, hget, hservice]
  exact heq

lemma renameFile_cases {data : List UInt8}
    (hget : s.inodes.get ino = some (.file parent name data false))
    (hservice : s.torrentService = true) (f : DbFaults) (newparent : ℕ) (newname : Str)
    (target : Option ℕ) : let moved := s.moveFile ino newparent newname data
    let oldPath := extractSourcePath moved.inodes parent
    let newPath := extractSourcePath moved.inodes newparent
    let result := s.renameFile f ino parent name newparent newname target
    (∃ e, result = (.error e, s)) ∨
      isTorrentName name = true ∧ isTorrentName newname = true ∧
      (oldPath, name) ∉ s.processingTorrents ∧
      ((target = none ∧ ∃ torrents,
          (∃ e, renameTorrentByName s.names.torrents f.fault name oldPath newname newPath =
              (.error e, torrents) ∧ result = (.error (.database e), moved)) ∨
          ∃ after, renameTorrentByName s.names.torrents f.fault name oldPath newname newPath =
              (.ok (), torrents) ∧ result = (.ok (), after) ∧
            Leaves s moved.inodes torrents after) ∨
        ∃ targetIno removed purge torrents after, target = some targetIno ∧
          (newPath, newname) ∉ s.processingTorrents ∧
          s.names.torrents.renameTorrentOverwriting f.fault f.checkFails name oldPath newname
            newPath = (.ok (.moved removed), purge, torrents) ∧ result = (.ok (), after) ∧
          Leaves s (moved.inodeMgr.unlinkFile targetIno) torrents after) := by
  intro moved oldPath newPath result
  by_cases hnames : isTorrentName name = true ∧ isTorrentName newname = true
  swap
  · refine .inl ⟨.invalidArgument, if_pos ?_⟩
    rw [not_and_or, Bool.not_eq_true, Bool.not_eq_true] at hnames
    simpa using hnames
  have hresult : result = s.renameInDatabase moved f target oldPath name newPath newname :=
    renameFile_eq hget hservice hnames.1 hnames.2 f newparent target
  rw [hresult]
  unfold renameInDatabase waitForPendingAdd
  by_cases hbusy : (oldPath, name) ∈ s.processingTorrents
  · rw [if_pos hbusy]
    exact .inl ⟨_, rfl⟩
  rw [if_neg hbusy]
  cases target with
  | none =>
    rcases hdb : renameTorrentByName s.names.torrents f.fault name oldPath newname newPath with
      ⟨outcome, torrents⟩
    cases outcome with
    | error e =>
      exact .inr ⟨hnames.1, hnames.2, hbusy, .inl ⟨rfl, torrents, .inl ⟨e, rfl, rfl⟩⟩⟩
    | ok _ =>
      refine .inr ⟨hnames.1, hnames.2, hbusy, .inl ⟨rfl, torrents, .inr ⟨_, rfl, rfl, ?_⟩⟩⟩
      split
      · exact ⟨rfl, rfl, rfl, rfl, rfl, rfl, rfl⟩
      · exact ⟨rfl, rfl, rfl, rfl, rfl, rfl, rfl⟩
  | some targetIno =>
    by_cases hbusy' : (newPath, newname) ∈ s.processingTorrents
    · rw [if_pos hbusy']
      exact .inl ⟨_, rfl⟩
    rw [if_neg hbusy']
    rcases hdb : s.names.torrents.renameTorrentOverwriting f.fault f.checkFails name oldPath
      newname newPath with ⟨outcome, purge, torrents⟩
    rcases outcome with e | (_ | removed)
    · exact .inl ⟨_, rfl⟩
    · exact .inl ⟨_, rfl⟩
    · refine .inr ⟨hnames.1, hnames.2, hbusy, .inr ⟨targetIno, removed, purge, torrents, _,
        rfl, hbusy', rfl, rfl, ?_⟩⟩
      cases removed with
      | none => exact ⟨rfl, rfl, rfl, rfl, rfl, rfl, rfl⟩
      | some removed => exact ⟨rfl, rfl, Finset.erase_eq_of_notMem hbusy', rfl, rfl, rfl, rfl⟩

end Exits

/-- The rename passes its checks and waits, the destination is free, and the database refuses the
new name of the directory or file. -/
def FailsAtFreeName (s : FsService) (f : DbFaults) (parent : ℕ) (name : Str) (newparent : ℕ)
    (newname : Str) : Prop :=
  RenameGuards s parent newparent ∧ s.torrentService = true ∧
    findChildByName s.inodes newparent newname = none ∧
    ∃ ino, findChildByName s.inodes parent name = some ino ∧
      ((s.inodes.get ino = some (.directory parent name) ∧
          ∃ e, (s.names.renameMetadataDirectory f.fault (extractSourcePath s.inodes ino) newname
            (childSourcePath s.inodes newparent newname)).1 = .error e) ∨
        ∃ data, s.inodes.get ino = some (.file parent name data false) ∧
          isTorrentName name = true ∧ isTorrentName newname = true ∧
          let moved := (s.moveFile ino newparent newname data).inodes
          (extractSourcePath moved parent, name) ∉ s.processingTorrents ∧
          ∃ e, (renameTorrentByName s.names.torrents f.fault name (extractSourcePath moved parent)
            newname (extractSourcePath moved newparent)).1 = .error e)

/-- The tree, the cached inodes and the names of the database are the same. -/
structure Unchanged (s s' : FsService) : Prop where
  inodes : s'.inodes = s.inodes
  dataInodes : s'.inodeMgr.dataInodes = s.inodeMgr.dataInodes
  names : s'.names = s.names

section Errors

variable {s : FsService} {f : DbFaults} {parent newparent ino : ℕ} {name newname : Str}

lemma rename_of_free (hguards : RenameGuards s parent newparent)
    (hfind : findChildByName s.inodes parent name = some ino)
    (hfree : findChildByName s.inodes newparent newname = none) :
    s.rename f parent name newparent newname = if (s.inodes.get ino).any InodeData.isFile then
        s.renameFile f ino parent name newparent newname none
      else s.renameDirectory f ino newparent newname := by
  simp only [rename, hguards.parentNotData, hguards.newparentNotData, hguards.parentExists,
    hguards.newparentExists, hguards.parentChild, hguards.newparentChild, hfind, hfree]
  rfl

lemma insert_ne_of_free {d : InodeData} (hfind : findChildByName s.inodes parent name = some ino)
    (hfree : findChildByName s.inodes newparent newname = none) (hparent : d.parent = newparent)
    (hname : d.name = newname) : s.inodes.insert ino d ≠ s.inodes := by
  intro hsame
  have hget : s.inodes.get ino = some d := by
    rw [← hsame, get_insert_self]
  obtain ⟨-, -, hlinked⟩ := get_of_findChildByName hfind hget
  exact findChildByName_eq_none hfree hget hlinked ⟨hparent, hname⟩

variable {e : FsError}

lemma renameDirectory_of_error (h : (s.renameDirectory f ino newparent newname).1 = .error e) :
    s.torrentService = true ∧
      ∃ e, (s.names.renameMetadataDirectory f.fault (extractSourcePath s.inodes ino) newname
        (childSourcePath s.inodes newparent newname)).1 = .error e := by
  unfold renameDirectory at h
  dsimp only at h
  split at h
  · next hservice =>
    split at h
    · next e' _ hdb => exact ⟨hservice, e', congrArg Prod.fst hdb⟩
    · cases h
  · cases h

lemma renameDirectory_of_database_error {e : SqlError} (hservice : s.torrentService = true)
    (h : (s.names.renameMetadataDirectory f.fault (extractSourcePath s.inodes ino) newname
        (childSourcePath s.inodes newparent newname)).1 = .error e) :
    let result := s.renameDirectory f ino newparent newname
    result.1 = .error (.database e) ∧
      result.2.inodes = s.inodes.insert ino (.directory newparent newname) := by
  unfold renameDirectory
  rcases hdb : s.names.renameMetadataDirectory f.fault (extractSourcePath s.inodes ino) newname
    (childSourcePath s.inodes newparent newname) with ⟨outcome, names⟩
  rw [hdb] at h
  obtain rfl : outcome = .error e := h
  simp only [hservice, hdb]
  exact ⟨rfl, rfl⟩

lemma renameFile_of_error_of_no_service {target : Option ℕ} (hservice : s.torrentService = false)
    (h : (s.renameFile f ino parent name newparent newname target).1 = .error e) :
    (s.renameFile f ino parent name newparent newname target).2 = s := by
  revert h
  unfold renameFile
  split
  · exact fun _ => rfl
  · split
    · simp only [hservice]
      exact fun h => by cases h
    · exact fun _ => rfl

lemma FailsAtFreeName.inodes_ne (h : FailsAtFreeName s f parent name newparent newname) :
    let result := s.rename f parent name newparent newname
    (∃ e, result.1 = .error e) ∧ result.2.inodes ≠ s.inodes := by
  obtain ⟨hguards, hservice, hfree, ino, hfind, hkind⟩ := h
  rcases hkind with ⟨hget, e, hdb⟩ | ⟨data, hget, hname, hnewname, hidle, e, hdb⟩
  · obtain ⟨herror, hinodes⟩ := renameDirectory_of_database_error hservice hdb
    have hrename : s.rename f parent name newparent newname =
        s.renameDirectory f ino newparent newname := by
      rw [rename_of_free hguards hfind hfree, hget]
      rfl
    rw [hrename]
    refine ⟨⟨_, herror⟩, ?_⟩
    rw [hinodes]
    exact insert_ne_of_free hfind hfree rfl rfl
  · have hrename : s.rename f parent name newparent newname =
        s.renameFile f ino parent name newparent newname none := by
      rw [rename_of_free hguards hfind hfree, hget]
      rfl
    rw [hrename, renameFile_eq hget hservice hname hnewname]
    unfold renameInDatabase waitForPendingAdd
    rw [if_neg hidle]
    rcases hresult : renameTorrentByName s.names.torrents f.fault name _ newname _ with
      ⟨outcome, torrents⟩
    rw [hresult] at hdb
    obtain rfl : outcome = .error e := hdb
    exact ⟨⟨_, rfl⟩, insert_ne_of_free hfind hfree rfl rfl⟩

lemma unchanged_or_failsAtFreeName (h : (s.rename f parent name newparent newname).1 = .error e) :
    (s.rename f parent name newparent newname).2 = s ∨
      FailsAtFreeName s f parent name newparent newname := by
  rcases rename_cases s f parent name newparent newname with
    ⟨e', heq⟩ | ⟨hguards, ino, hfind, ⟨-, heq⟩ | ⟨hget, hfree, heq⟩ |
      ⟨data, target, hget, htarget, -, -, heq⟩⟩
  · exact .inl (congrArg Prod.snd heq)
  · rw [heq] at h
    cases h
  · rw [heq] at h
    obtain ⟨hservice, hdb⟩ := renameDirectory_of_error h
    exact .inr ⟨hguards, hservice, hfree, ino, hfind, .inl ⟨hget, hdb⟩⟩
  · rw [heq] at h ⊢
    cases hservice : s.torrentService with
    | false => exact .inl (renameFile_of_error_of_no_service hservice h)
    | true =>
      rcases renameFile_cases hget hservice f newparent newname target with
        ⟨_, hexit⟩ | ⟨hname, hnewname, hidle, ⟨rfl, _, ⟨e', hdb, -⟩ | ⟨_, -, hexit, -⟩⟩ |
          ⟨_, _, _, _, _, -, -, -, hexit, -⟩⟩
      · exact .inl (congrArg Prod.snd hexit)
      · exact .inr ⟨hguards, hservice, htarget, ino, hfind,
          .inr ⟨data, hget, hname, hnewname, hidle, e', congrArg Prod.fst hdb⟩⟩
      · rw [hexit] at h
        cases h
      · rw [hexit] at h
        cases h

end Errors

/-- A rename that ends in an error leaves the tree, the cached inodes and the names of the database
as they were, unless it fails in the database at a free name. -/
theorem unchanged_of_error_iff (s : FsService) (f : DbFaults) (parent : ℕ) (name : Str)
    (newparent : ℕ) (newname : Str) : let result := s.rename f parent name newparent newname
    ((∃ e, result.1 = .error e) → Unchanged s result.2) ↔
      ¬ FailsAtFreeName s f parent name newparent newname := by
  intro result
  constructor
  · intro hunchanged hfails
    exact hfails.inodes_ne.2 (hunchanged hfails.inodes_ne.1).inodes
  · rintro hnot ⟨e, herror⟩
    have hsame : result.2 = s := (unchanged_or_failsAtFreeName herror).resolve_right hnot
    rw [hsame]
    exact ⟨rfl, rfl, rfl⟩

def sampleDirectory : FsService := (new.mkdir noFaults metadataIno "d".toList).2

/-- The transaction that renames the directory `d` to `e` fails: the call ends with the error of
the database, and the directory is `e` in the tree and `d` in the database. -/
theorem directory_moved_by_failed_rename :
    let result := sampleDirectory.rename ⟨some .other, false, 1⟩ metadataIno "d".toList metadataIno
      "e".toList
    (∃ e, result.1 = .error e) ∧
      findChildByName sampleDirectory.inodes metadataIno "d".toList = some 5 ∧
      findChildByName result.2.inodes metadataIno "d".toList = none ∧
      findChildByName result.2.inodes metadataIno "e".toList = some 5 ∧
      result.2.names.directories.rows.map MetadataDirectory.path = ["d".toList] := by
  refine ⟨⟨.database .other, ?_⟩, ?_⟩
  · decide
  · decide

end FsService

end TorrentFs.Fuse
