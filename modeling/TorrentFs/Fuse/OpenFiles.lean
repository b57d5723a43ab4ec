import TorrentFs.Fuse.Namespace

/-!
# The table of inodes and the open files

All inodes of `metadata/` are kept in one table, each with the number of its parent. A file that is
unlinked or overwritten while it is open stays in the table without a directory entry, until its
handle is released. Here the invariant of table and handles is proved for each request that makes,
writes, closes, removes or renames a file or a directory. The bytes of a file are those that were
written to it, as a record kept beside the service says.
-/

namespace TorrentFs.Fuse

open Text Word Db Services InodeManager NameTree Joined Function FinMap

/-! ### The record -/

/-- The service, and the bytes that have been written to each file. -/
structure Recorded where
  service : FsService
  contents : ℕ → List UInt8

namespace Recorded

def written (s : FsService) (contents : ℕ → List UInt8) : FsAction → ℕ → List UInt8
  | .mknod parent name =>
    match (s.mknod parent name).1 with
    | .ok ino => Function.update contents ino []
    | .error _ => contents
  | .create parent name =>
    match (s.create parent name).1 with
    | .ok (ino, _) => Function.update contents ino []
    | .error _ => contents
  | .write ino offset data =>
    match (s.write ino offset data).1 with
    | .ok _ => Function.update contents ino (FsService.spliced (contents ino) offset.toNat data)
    | .error _ => contents
  | _ => contents

end Recorded

/-! ### The invariant -/

/-- The tree has its shape; an inode without a directory entry has a handle; a handle is that of a
file, which has no other; the bytes of files are recorded. -/
structure Filed (s : FsService) (contents : ℕ → List UInt8) : Prop where
  tree : Tree s.inodes s.inodeMgr.nextIno
  reserved : Reserved s.inodes
  stored : ∀ i parent name data unlinked,
    s.inodes.get i = some (.file parent name data unlinked) → data = contents i
  held : ∀ i d, s.inodes.get i = some d → d.linked = false →
    ∃ fh, s.inodeMgr.openFiles.get fh = some i
  handles : ∀ fh i, s.inodeMgr.openFiles.get fh = some i →
    firstIno ≤ i ∧ ∃ d, s.inodes.get i = some d ∧ d.isFile = true
  single : ∀ fh fh' i, s.inodeMgr.openFiles.get fh = some i →
    s.inodeMgr.openFiles.get fh' = some i → fh = fh'
  given : ∀ fh i, s.inodeMgr.openFiles.get fh = some i → fh < s.inodeMgr.nextFh
  counters : s.inodeMgr.nextFh ≤ s.inodeMgr.nextIno
  room : s.inodeMgr.nextIno ≤ dataTorrentInoBase

/-- A step that leaves the handles and the counters alone, with the table after it. -/
structure TableIs (s : FsService) (m : FinMap ℕ InodeData) (s' : FsService) : Prop where
  inodes : s'.inodes = m
  openFiles : s'.inodeMgr.openFiles = s.inodeMgr.openFiles
  nextIno : s'.inodeMgr.nextIno = s.inodeMgr.nextIno
  nextFh : s'.inodeMgr.nextFh = s.inodeMgr.nextFh

section Tables

variable {s s' s'' : FsService} {m : FinMap ℕ InodeData}

lemma TableIs.refl (s : FsService) : TableIs s s.inodes s := ⟨rfl, rfl, rfl, rfl⟩

lemma tableIs_of_inodeMgr_eq (h : s'.inodeMgr = s.inodeMgr) : TableIs s s.inodes s' :=
  ⟨congrArg InodeManager.inodes h, congrArg InodeManager.openFiles h,
    congrArg InodeManager.nextIno h, congrArg InodeManager.nextFh h⟩

lemma TableIs.trans (h : TableIs s s.inodes s') (h' : TableIs s' m s'') : TableIs s m s'' :=
  ⟨h'.inodes, h'.openFiles.trans h.openFiles, h'.nextIno.trans h.nextIno,
    h'.nextFh.trans h.nextFh⟩

end Tables

section Changes

variable {s s' : FsService} {contents contents' : ℕ → List UInt8} {m : FinMap ℕ InodeData}
  {ino parent newparent : ℕ} {name newname : Str} {data : List UInt8} {unlinked : Bool}

lemma openHandleCount_pos {mgr : InodeManager} :
    0 < mgr.openHandleCount ino ↔ ∃ fh, mgr.openFiles.get fh = some ino := by
  unfold openHandleCount
  rw [Finset.card_pos]
  constructor
  · rintro ⟨fh, hfh⟩
    exact ⟨fh, (Finset.mem_filter.mp hfh).2⟩
  · rintro ⟨fh, hfh⟩
    exact ⟨fh, Finset.mem_filter.mpr ⟨mem_keys_of_get hfh, hfh⟩⟩

section

variable (h : Filed s contents)
include h

lemma Filed.change (ino : ℕ) (ht : TableIs s m s') (htree : Tree m s.inodeMgr.nextIno)
    (hino : firstIno ≤ ino) (hothers : ∀ i, i ≠ ino → m.get i = s.inodes.get i)
    (hcontents : ∀ i, i ≠ ino → contents' i = contents i) (hstored : ∀ parent name data unlinked,
      m.get ino = some (.file parent name data unlinked) → data = contents' ino)
    (hheld : ∀ d, m.get ino = some d → d.linked = false →
      ∃ fh, s.inodeMgr.openFiles.get fh = some ino)
    (hhandles : ∀ fh, s.inodeMgr.openFiles.get fh = some ino →
      ∃ d, m.get ino = some d ∧ d.isFile = true) : Filed s' contents' := by
  have hinodes := ht.inodes
  have hopen := ht.openFiles
  refine ⟨?_, fun i hi => ?_, fun i p n bytes u hget => ?_, fun i d hget hl => ?_,
    fun fh i hfh => ?_, fun fh fh' i hfh hfh' => ?_, fun fh i hfh => ?_, ?_, ?_⟩
  · rw [hinodes, ht.nextIno]
    exact htree
  · rw [hinodes, hothers i (Nat.ne_of_lt (hi.trans_le hino))]
    exact h.reserved i hi
  · rw [hinodes] at hget
    by_cases heq : i = ino
    · exact heq ▸ hstored p n bytes u (heq ▸ hget)
    · rw [hothers i heq] at hget
      rw [hcontents i heq]
      exact h.stored i p n bytes u hget
  · rw [hinodes] at hget
    rw [hopen]
    by_cases heq : i = ino
    · exact heq ▸ hheld d (heq ▸ hget) hl
    · exact h.held i d (hothers i heq ▸ hget) hl
  · rw [hopen] at hfh
    obtain ⟨hfirst, d, hget, hfile⟩ := h.handles fh i hfh
    refine ⟨hfirst, ?_⟩
    rw [hinodes]
    by_cases heq : i = ino
    · exact heq ▸ hhandles fh (heq ▸ hfh)
    · exact ⟨d, (hothers i heq).trans hget, hfile⟩
  · rw [hopen] at hfh hfh'
    exact h.single fh fh' i hfh hfh'
  · rw [hopen] at hfh
    rw [ht.nextFh]
    exact h.given fh i hfh
  · rw [ht.nextFh, ht.nextIno]
    exact h.counters
  · rw [ht.nextIno]
    exact h.room

lemma Filed.same (ht : TableIs s s.inodes s') : Filed s' contents :=
  h.change s.inodeMgr.nextIno ht h.tree h.tree.first (fun _ _ => rfl) (fun _ _ => rfl)
    (h.stored _) (h.held _) fun fh hfh => (h.handles fh _ hfh).2

lemma Filed.retire (hino : firstIno ≤ ino)
    (hget : s.inodes.get ino = some (.file parent name data false))
    (ht : TableIs s (s.inodeMgr.unlinkFile ino) s') : Filed s' contents := by
  have hcases := unlinkFile_cases hget
  obtain ⟨htree, hchange, -⟩ := h.tree.retire hino hget (hcases.imp And.right And.right)
  refine h.change ino ht htree hino hchange.others (fun _ _ => rfl) ?_ ?_ ?_
  · intro p n bytes u hafter
    rcases hcases with ⟨-, heq⟩ | ⟨-, heq⟩
    · rw [heq, get_insert_self, Option.some.injEq, InodeData.file.injEq] at hafter
      exact hafter.2.2.1 ▸ h.stored ino _ _ _ _ hget
    · rw [heq, get_erase, if_pos rfl] at hafter
      cases hafter
  · intro d hafter _
    rcases hcases with ⟨hopen, -⟩ | ⟨-, heq⟩
    · exact openHandleCount_pos.mp hopen
    · rw [heq, get_erase, if_pos rfl] at hafter
      cases hafter
  · intro fh hfh
    rcases hcases with ⟨-, heq⟩ | ⟨hclosed, -⟩
    · exact ⟨_, heq ▸ get_insert_self _ _ _, rfl⟩
    · exact absurd (openHandleCount_pos.mpr ⟨fh, hfh⟩) (Nat.not_lt.mpr hclosed.le)

lemma Filed.moveFile (hino : firstIno ≤ ino)
    (hget : s.inodes.get ino = some (.file parent name data false)) {path : List Str}
    (hpath : DirPath s.inodes newparent path) (hname : newname ≠ [] ∧ '/' ∉ newname)
    (hfree : ∀ i d, s.inodes.get i = some d → d.linked = true →
      ¬(d.parent = newparent ∧ d.name = newname))
    (ht : TableIs s (s.inodes.insert ino (.file newparent newname data false)) s') :
    Filed s' contents := by
  have htree : Tree (s.inodes.insert ino (.file newparent newname data false))
      s.inodeMgr.nextIno :=
    h.tree.replaceFile hino (h.tree.fresh ino _ hget) (notDirectory_of_file hget)
      (fun _ => ⟨path, hpath⟩) (fun _ => hname) fun _ i d _ => hfree i d
  refine h.change ino ht htree hino (fun i hi => get_insert_ne _ hi _) (fun _ _ => rfl) ?_ ?_
    fun _ _ => ⟨_, get_insert_self _ _ _, rfl⟩
  · intro p n bytes u hafter
    rw [get_insert_self, Option.some.injEq, InodeData.file.injEq] at hafter
    exact hafter.2.2.1 ▸ h.stored ino _ _ _ _ hget
  · intro d hafter hl
    rw [get_insert_self, Option.some.injEq] at hafter
    subst hafter
    cases hl

lemma Filed.moveFileOver (hino : firstIno ≤ ino)
    (hget : s.inodes.get ino = some (.file parent name data false)) {target : ℕ}
    {targetData : List UInt8} (hne : target ≠ ino)
    (htarget : s.inodes.get target = some (.file newparent newname targetData false))
    {path : List Str} (hpath : DirPath s.inodes newparent path)
    (hname : newname ≠ [] ∧ '/' ∉ newname)
    (ht : TableIs s ((s.moveFile ino newparent newname data).inodeMgr.unlinkFile target) s') :
    Filed s' contents := by
  have htargetino := h.tree.firstIno_le_of_parent htarget hpath
  -- first the other file goes, then its name is free
  have hretired : Filed (s.setInodes (s.inodeMgr.unlinkFile target)) contents :=
    h.retire htargetino htarget ⟨rfl, rfl, rfl, rfl⟩
  obtain ⟨-, hchange, hgone⟩ :=
    h.tree.retire htargetino htarget ((unlinkFile_cases htarget).imp And.right And.right)
  have hpath' : DirPath (s.inodeMgr.unlinkFile target) newparent path := by
    rw [DirPath, hchange.dirLinks_eq]
    exact hpath
  refine hretired.moveFile hino ((hchange.others ino hne.symm).trans hget) hpath' hname
    (fun i d hi hl => h.tree.free_of_retired htargetino htarget hpath hchange hgone hi hl) ?_
  refine ⟨ht.inodes.trans ?_, ht.openFiles, ht.nextIno, ht.nextFh⟩
  exact unlinkFile_insert rfl rfl hne htarget

lemma Filed.changeDirectory (hino : firstIno ≤ ino)
    (hget : s.inodes.get ino = some (.directory parent name)) (ht : TableIs s m s')
    (htree : Tree m s.inodeMgr.nextIno) (hothers : ∀ i, i ≠ ino → m.get i = s.inodes.get i)
    (hself : ∀ d, m.get ino = some d → d.isFile = false) : Filed s' contents := by
  refine h.change ino ht htree hino hothers (fun _ _ => rfl) ?_ ?_ ?_
  · intro p n bytes u hafter
    cases hself _ hafter
  · intro d hafter hl
    cases d with
    | directory p n => cases hl
    | file p n bytes u => cases hself _ hafter
  · intro fh hfh
    obtain ⟨-, d, hget', hfile⟩ := h.handles fh ino hfh
    rw [hget, Option.some.injEq] at hget'
    subst hget'
    cases hfile

lemma Filed.setData (hne : ino ≠ statsIno)
    (hget : s.inodes.get ino = some (.file parent name data unlinked)) (data' : List UInt8)
    (ht : TableIs s (s.inodes.insert ino (.file parent name data' unlinked)) s') :
    Filed s' (Function.update contents ino data') := by
  have hino := h.reserved.firstIno_le_of_file hget hne
  refine h.change ino ht (h.tree.setData hino hget data') hino
    (fun i hi => get_insert_ne _ hi _) (fun i hi => update_of_ne hi _ _) ?_ ?_
    fun _ _ => ⟨_, get_insert_self _ _ _, rfl⟩
  · intro p n bytes u hafter
    rw [get_insert_self, Option.some.injEq, InodeData.file.injEq] at hafter
    rw [update_self, hafter.2.2.1]
  · intro d hafter hl
    rw [get_insert_self, Option.some.injEq] at hafter
    subst hafter
    exact h.held ino _ hget hl

lemma Filed.nextIno_free : s.inodes.get s.inodeMgr.nextIno = none ∧
      ∀ fh, s.inodeMgr.openFiles.get fh ≠ some s.inodeMgr.nextIno := by
  have hnone : s.inodes.get s.inodeMgr.nextIno = none := by
    by_contra hsome
    obtain ⟨d, hd⟩ := Option.ne_none_iff_exists'.mp hsome
    exact absurd (h.tree.fresh _ d hd) (lt_irrefl _)
  refine ⟨hnone, fun fh hfh => ?_⟩
  obtain ⟨-, d, hget, -⟩ := h.handles fh _ hfh
  rw [hnone] at hget
  cases hget

lemma Filed.addInode {d : InodeData} (hchild : isMetadataChild s.inodes d.parent = true)
    (hdir : (s.inodes.get d.parent).any InodeData.isFile = false)
    (hname : d.name ≠ [] ∧ '/' ∉ d.name) (hfree : findChildByName s.inodes d.parent d.name = none)
    (hlinked : d.linked = true) (hroom : s.inodeMgr.nextIno < dataTorrentInoBase)
    (hcontents : ∀ i, i ≠ s.inodeMgr.nextIno → contents' i = contents i)
    (hstored : ∀ parent name data unlinked, d = .file parent name data unlinked →
      data = contents' s.inodeMgr.nextIno) : Filed (s.addInode d) contents' := by
  obtain ⟨path, hpath⟩ := h.tree.exists_dirPath h.reserved hchild hdir
  have hnext : (s.addInode d).inodeMgr.nextIno = s.inodeMgr.nextIno + 1 := by
    refine addU64_of_lt ?_
    unfold dataTorrentInoBase at hroom
    omega
  have hself : (s.addInode d).inodes.get s.inodeMgr.nextIno = some d :=
    get_insert_self _ _ _
  have hothers : ∀ i, i ≠ s.inodeMgr.nextIno → (s.addInode d).inodes.get i = s.inodes.get i :=
    fun i hi => get_insert_ne _ hi _
  refine ⟨?_, fun i hi => ?_, fun i p n bytes u hget => ?_, fun i e hget hl => ?_,
    fun fh i hfh => ?_, h.single, h.given, ?_, ?_⟩
  · rw [hnext]
    exact (h.tree.add hpath hname hfree).1
  · rw [hothers i (Nat.ne_of_lt (hi.trans_le h.tree.first))]
    exact h.reserved i hi
  · by_cases heq : i = s.inodeMgr.nextIno
    · subst heq
      rw [hself, Option.some.injEq] at hget
      exact hstored p n bytes u hget
    · rw [hothers i heq] at hget
      rw [hcontents i heq]
      exact h.stored i p n bytes u hget
  · by_cases heq : i = s.inodeMgr.nextIno
    · subst heq
      rw [hself, Option.some.injEq] at hget
      rw [← hget, hlinked] at hl
      cases hl
    · exact h.held i e (hothers i heq ▸ hget) hl
  · obtain ⟨hfirst, e, hget, hfile⟩ := h.handles fh i hfh
    have hne : i ≠ s.inodeMgr.nextIno := fun heq => h.nextIno_free.2 fh (heq ▸ hfh)
    exact ⟨hfirst, e, (hothers i hne).trans hget, hfile⟩
  · rw [hnext]
    exact h.counters.trans (Nat.le_succ _)
  · rw [hnext]
    exact hroom

lemma Filed.addHandle (hino : firstIno ≤ ino)
    (hget : s.inodes.get ino = some (.file parent name data unlinked))
    (hclosed : ∀ fh, s.inodeMgr.openFiles.get fh ≠ some ino)
    (hcounters : s.inodeMgr.nextFh + 1 ≤ s.inodeMgr.nextIno) :
    Filed (s.addHandle ino) contents := by
  have hnext : (s.addHandle ino).inodeMgr.nextFh = s.inodeMgr.nextFh + 1 := by
    refine addU64_of_lt ?_
    have hroom := h.room
    unfold dataTorrentInoBase at hroom
    omega
  have hof : ∀ {fh i}, (s.addHandle ino).inodeMgr.openFiles.get fh = some i →
      fh = s.inodeMgr.nextFh ∧ i = ino ∨ fh ≠ s.inodeMgr.nextFh ∧
        s.inodeMgr.openFiles.get fh = some i := by
    intro fh i hfh
    have hinsert : (s.inodeMgr.openFiles.insert s.inodeMgr.nextFh ino).get fh = some i := hfh
    rw [get_insert] at hinsert
    split at hinsert
    · next heq => exact .inl ⟨heq, (Option.some.inj hinsert).symm⟩
    · next hne => exact .inr ⟨hne, hinsert⟩
  refine ⟨h.tree, h.reserved, h.stored, fun i d hi hl => ?_, fun fh i hfh => ?_,
    fun fh fh' i hfh hfh' => ?_, fun fh i hfh => ?_, hnext ▸ hcounters, h.room⟩
  · obtain ⟨fh, hfh⟩ := h.held i d hi hl
    have hne : fh ≠ s.inodeMgr.nextFh := Nat.ne_of_lt (h.given fh i hfh)
    exact ⟨fh, (get_insert_ne _ hne _).trans hfh⟩
  · rcases hof hfh with ⟨-, rfl⟩ | ⟨-, hold⟩
    · exact ⟨hino, _, hget, rfl⟩
    · exact h.handles fh i hold
  · rcases hof hfh with ⟨rfl, rfl⟩ | ⟨-, hold⟩ <;> rcases hof hfh' with ⟨rfl, hi⟩ | ⟨-, hold'⟩
    · rfl
    · exact absurd hold' (hclosed fh')
    · exact absurd (hi ▸ hold) (hclosed fh)
    · exact h.single fh fh' i hold hold'
  · rw [hnext]
    rcases hof hfh with ⟨rfl, -⟩ | ⟨-, hold⟩
    · exact Nat.lt_succ_self _
    · exact (h.given fh i hold).trans (Nat.lt_succ_self _)

lemma Filed.close {fh : ℕ} (hfh : s.inodeMgr.openFiles.get fh = some ino)
    (hget : s.inodes.get ino = some (.file parent name data unlinked))
    (ht : TableIs (s.closeHandle fh) m s')
    (hm : (unlinked = false ∧ m = s.inodes) ∨ m = s.inodes.erase ino) : Filed s' contents := by
  have hino := (h.handles fh ino hfh).1
  have htree : Tree m s.inodeMgr.nextIno := by
    rcases hm with ⟨-, rfl⟩ | hm
    · exact h.tree
    · exact (h.tree.retire hino hget (.inr hm)).1
  have hothers : ∀ i, i ≠ ino → m.get i = s.inodes.get i := by
    intro i hi
    rcases hm with ⟨-, rfl⟩ | rfl
    · rfl
    · rw [get_erase, if_neg hi]
  have hof : ∀ {i d}, m.get i = some d → s.inodes.get i = some d := by
    intro i d hi
    rcases hm with ⟨-, rfl⟩ | rfl
    · exact hi
    · rw [get_erase] at hi
      split at hi
      · cases hi
      · exact hi
  have hopen : s'.inodeMgr.openFiles = s.inodeMgr.openFiles.erase fh := ht.openFiles
  have hold : ∀ {k i}, s'.inodeMgr.openFiles.get k = some i →
      k ≠ fh ∧ s.inodeMgr.openFiles.get k = some i := by
    intro k i hk
    rw [hopen, get_erase] at hk
    split at hk
    · cases hk
    · next hne => exact ⟨hne, hk⟩
  refine ⟨?_, fun i hi => ?_, fun i p n bytes u hi => ?_, fun i d hi hl => ?_,
    fun k i hk => ?_, fun k k' i hk hk' => ?_, fun k i hk => ?_, ?_, ?_⟩
  · rw [ht.inodes, ht.nextIno]
    exact htree
  · rw [ht.inodes, hothers i (Nat.ne_of_lt (hi.trans_le hino))]
    exact h.reserved i hi
  · exact h.stored i p n bytes u (hof (ht.inodes ▸ hi))
  · rw [ht.inodes] at hi
    obtain ⟨k, hk⟩ := h.held i d (hof hi) hl
    -- the handle is another one: the file of this one is linked, or gone
    refine ⟨k, ?_⟩
    rw [hopen, get_erase, if_neg, hk]
    rintro rfl
    obtain rfl := Option.some.inj (hfh.symm.trans hk)
    rcases hm with ⟨rfl, -⟩ | rfl
    · obtain rfl := Option.some.inj (hget.symm.trans (hof hi))
      cases hl
    · rw [get_erase, if_pos rfl] at hi
      cases hi
  · obtain ⟨hne, hk⟩ := hold hk
    obtain ⟨hfirst, d, hi, hfile⟩ := h.handles k i hk
    have hother : i ≠ ino := by
      rintro rfl
      exact hne (h.single k fh i hk hfh)
    exact ⟨hfirst, d, by rw [ht.inodes, hothers i hother, hi], hfile⟩
  · exact h.single k k' i (hold hk).2 (hold hk').2
  · rw [ht.nextFh]
    exact h.given k i (hold hk).2
  · rw [ht.nextFh, ht.nextIno]
    exact h.counters
  · rw [ht.nextIno]
    exact h.room

end

end Changes

/-! ### The requests -/

section Requests

variable {lib : Libraries} {s s' : FsService} {contents : ℕ → List UInt8} {f : DbFaults}
  {ino parent newparent : ℕ} {name newname : Str} {data : List UInt8}

lemma tableIs_removeTorrentAndDataState (s : FsService) (f : DbFaults) (sourcePath filename : Str) :
    TableIs s s.inodes (s.removeTorrentAndDataState f sourcePath filename).2 := by
  unfold FsService.removeTorrentAndDataState
  split
  · split
    · exact .refl s
    · exact .refl s
    · exact ⟨rfl, rfl, rfl, rfl⟩
  · exact .refl s

lemma tableIs_discard (s : FsService) (f : DbFaults) (ino : ℕ) (key : Str × Str)
    (result : Except FsError Unit) : TableIs s s.inodes (s.discard f ino key result).2 ∨
      TableIs s (s.inodes.erase ino) (s.discard f ino key result).2 := by
  unfold FsService.discard
  split
  · exact .inl (.refl s)
  · have hremove := tableIs_removeTorrentAndDataState s f key.1 key.2
    split
    · next heq =>
      rw [heq] at hremove
      exact .inl hremove
    · next after heq =>
      rw [heq] at hremove
      refine .inr (hremove.trans ⟨?_, rfl, rfl, rfl⟩)
      exact congrArg (FinMap.erase · ino) hremove.inodes

lemma tableIs_startPersist (s : FsService) (key : Str × Str) (data : List UInt8) :
    TableIs s s.inodes (s.startPersist key data) := by
  unfold FsService.startPersist
  split
  · exact .refl s
  split
  · exact ⟨rfl, rfl, rfl, rfl⟩
  · exact .refl s

lemma Filed.release (h : Filed s contents) (f : DbFaults) (fh : ℕ) :
    Filed (s.release lib f fh).2 contents := by
  cases hfh : s.inodeMgr.openFiles.get fh with
  | none =>
    simp only [FsService.release, hfh]
    exact h
  | some ino =>
    obtain ⟨-, d, hget, hfile⟩ := h.handles fh ino hfh
    rw [FsService.release_of_handle lib f hfh]
    cases d with
    | directory parent name => cases hfile
    | file parent name data unlinked =>
      have hunlinked : isUnlinkedFile s.inodes ino = unlinked := by
        rw [isUnlinkedFile, hget]
      cases unlinked with
      | true =>
        -- no other handle keeps the file
        have hlast : (s.closeHandle fh).inodeMgr.openHandleCount ino = 0 := by
          by_contra hne
          obtain ⟨k, hk⟩ := openHandleCount_pos.mp (Nat.pos_of_ne_zero hne)
          have herase : (s.inodeMgr.openFiles.erase fh).get k = some ino := hk
          rw [get_erase] at herase
          split at herase
          · cases herase
          · next hkne => exact hkne (h.single k fh ino herase hfh)
        rw [if_pos hunlinked]
        rw [if_pos hlast]
        exact h.close hfh hget ⟨rfl, rfl, rfl, rfl⟩ (.inr rfl)
      | false =>
        have hclosed : Filed (s.closeHandle fh) contents :=
          h.close hfh hget (.refl _) (.inl ⟨rfl, rfl⟩)
        have hdiscard : ∀ result, Filed ((s.closeHandle fh).discard f ino
            (extractSourcePath s.inodes parent, name) result).2 contents := by
          intro result
          rcases tableIs_discard (s.closeHandle fh) f ino _ result with ht | ht
          · exact h.close hfh hget ht (.inl ⟨rfl, rfl⟩)
          · exact h.close hfh hget ht (.inr rfl)
        rw [if_neg (by rw [hunlinked]; decide), hget]
        dsimp only
        split
        · split
          · exact hdiscard _
          split
          · exact hdiscard _
          split
          · exact hdiscard _
          · exact hclosed.same (tableIs_startPersist _ _ _)
        · exact hclosed

lemma Filed.write (h : Filed s contents) (ino : ℕ) (offset : ℤ) (data : List UInt8) :
    Filed (s.write ino offset data).2 (Recorded.written s contents (.write ino offset data)) := by
  unfold Recorded.written
  dsimp only
  rcases FsService.write_cases s ino offset data with ⟨e, heq⟩ | ⟨_, _, _, _, hne, hget, heq⟩
  · rw [heq]
    exact h
  · rw [heq, ← h.stored ino _ _ _ _ hget]
    exact h.setData hne hget _ ⟨rfl, rfl, rfl, rfl⟩

lemma Filed.unlink (h : Filed s contents) (f : DbFaults) (parent : ℕ) (name : Str) :
    Filed (s.unlink f parent name).2 contents := by
  rcases FsService.unlink_cases s f parent name with
    heq | ⟨ino, data, _, after, hchild, hget, -, hremove, heq⟩
  · rw [heq]
    exact h
  · have htable := tableIs_removeTorrentAndDataState s f (extractSourcePath s.inodes parent) name
    rw [hremove] at htable
    rw [heq]
    -- the row has gone, the table is the same
    exact (h.same htable).retire (h.tree.firstIno_le_of_child h.reserved hget hchild)
      (htable.inodes ▸ hget) ⟨rfl, rfl, rfl, rfl⟩

lemma Filed.rmdir (h : Filed s contents) (f : DbFaults) (parent : ℕ) (name : Str) :
    Filed (s.rmdir f parent name).2 contents := by
  rcases FsService.rmdir_cases s f parent name with
    heq | ⟨ino, names, hchild, hget, hleaf, heq, -⟩
  · rw [heq]
    exact h
  · have htable : TableIs s (s.inodes.erase ino) (s.rmdir f parent name).2 :=
      heq ▸ ⟨rfl, rfl, rfl, rfl⟩
    have hino := h.tree.firstIno_le_of_child h.reserved hget hchild
    refine h.changeDirectory hino hget htable (h.tree.erase hino hleaf) (fun i hi => ?_)
      fun d hd => ?_
    · rw [get_erase, if_neg hi]
    · rw [get_erase, if_pos rfl] at hd
      cases hd

lemma tableIs_renameFile (hget : s.inodes.get ino = some (.file parent name data false))
    (f : DbFaults) (newparent : ℕ) (newname : Str) (target : Option ℕ) :
    let moved := s.moveFile ino newparent newname data
    let after := (s.renameFile f ino parent name newparent newname target).2
    TableIs s s.inodes after ∨ (target = none ∧ TableIs s moved.inodes after) ∨
      ∃ t, target = some t ∧ TableIs s (moved.inodeMgr.unlinkFile t) after := by
  intro moved after
  by_cases hservice : s.torrentService = true
  · rcases FsService.renameFile_cases hget hservice f newparent newname target with
      ⟨e, heq⟩ | ⟨hname, hnewname, -, -⟩
    · have hafter : after = s := congrArg Prod.snd heq
      exact .inl (hafter ▸ .refl s)
    · have hafter : after = _ := congrArg Prod.snd
        (FsService.renameFile_eq hget hservice hname hnewname f newparent target)
      rw [hafter]
      unfold FsService.renameInDatabase
      split
      · exact .inl (.refl s)
      cases target with
      | none =>
        dsimp only
        split
        · exact .inr (.inl ⟨rfl, rfl, rfl, rfl, rfl⟩)
        · split
          · exact .inr (.inl ⟨rfl, rfl, rfl, rfl, rfl⟩)
          · exact .inr (.inl ⟨rfl, rfl, rfl, rfl, rfl⟩)
      | some t =>
        dsimp only
        split
        · exact .inl (.refl s)
        split
        · exact .inl (.refl s)
        · exact .inl (.refl s)
        · next removed _ torrents _ =>
          refine .inr (.inr ⟨t, rfl, ?_⟩)
          cases removed with
          | none | some => exact ⟨rfl, rfl, rfl, rfl⟩
  · have hafter : after = (s.renameFile f ino parent name newparent newname target).2 := rfl
    unfold FsService.renameFile at hafter
    rw [hget] at hafter
    split at hafter
    · exact .inl (hafter ▸ .refl s)
    · cases target with
      | none => exact .inr (.inl ⟨rfl, hafter ▸ ⟨rfl, rfl, rfl, rfl⟩⟩)
      | some t => exact .inr (.inr ⟨t, rfl, hafter ▸ ⟨rfl, rfl, rfl, rfl⟩⟩)

section

variable (h : Filed s contents)
include h

lemma Filed.renameFile (hino : firstIno ≤ ino)
    (hget : s.inodes.get ino = some (.file parent name data false)) {path : List Str}
    (hpath : DirPath s.inodes newparent path) (hname : newname ≠ [] ∧ '/' ∉ newname)
    {target : Option ℕ} (htarget : findChildByName s.inodes newparent newname = target)
    (hne : target ≠ some ino) (hfile : ∀ t ∈ target, (s.inodes.get t).any InodeData.isFile = true) :
    Filed (s.renameFile f ino parent name newparent newname target).2 contents := by
  rcases tableIs_renameFile hget f newparent newname target with
    ht | ⟨rfl, ht⟩ | ⟨t, rfl, ht⟩
  · exact h.same ht
  · exact h.moveFile hino hget hpath hname
      (fun _ _ hi hl => findChildByName_eq_none htarget hi hl) ht
  · obtain ⟨targetData, hgett⟩ := file_of_findChildByName htarget (hfile t rfl)
    exact h.moveFileOver hino hget (fun heq => hne (heq ▸ rfl)) hgett hpath hname ht

lemma Filed.renameDirectory (hino : firstIno ≤ ino)
    (hget : s.inodes.get ino = some (.directory parent name)) {path : List Str}
    (hpath : DirPath s.inodes newparent path) (hname : newname ≠ [] ∧ '/' ∉ newname)
    (hfree : findChildByName s.inodes newparent newname = none)
    (houtside : ¬ FsService.AtOrBelow (extractSourcePath s.inodes ino)
      (extractSourcePath s.inodes newparent)) :
    Filed (s.renameDirectory f ino newparent newname).2 contents := by
  obtain ⟨pathP, hpathP⟩ := h.tree.placed ino _ hino hget rfl
  have hpathD : DirPath s.inodes ino (pathP ++ [name]) :=
    .child (dirLinks_eq_some.mpr ⟨hino, hget⟩) hpathP
  have htree := h.tree.moveDirectory hino (h.tree.fresh ino _ hget) hpathD hpath
    (FsService.outside_of_not_atOrBelow h.tree hpathD (by simp) hpath houtside) hname hfree
  have hmoved : ∀ {after : FsService},
      TableIs s (s.inodes.insert ino (.directory newparent newname)) after →
        Filed after contents := by
    intro after ht
    refine h.changeDirectory hino hget ht htree (fun i hi => get_insert_ne _ hi _)
      fun d hd => ?_
    rw [get_insert_self, Option.some.injEq] at hd
    rw [← hd]
    rfl
  unfold FsService.renameDirectory
  dsimp only
  split
  · split
    · exact hmoved ⟨rfl, rfl, rfl, rfl⟩
    · exact hmoved ⟨rfl, rfl, rfl, rfl⟩
  · exact hmoved ⟨rfl, rfl, rfl, rfl⟩

lemma Filed.rename (hkernel : FsService.FromKernel s (.rename f parent name newparent newname)) :
    Filed (s.rename f parent name newparent newname).2 contents := by
  obtain ⟨hdir, hname, houtside⟩ := hkernel
  rcases FsService.rename_cases s f parent name newparent newname with ⟨e, heq⟩ |
    ⟨hguards, ino, hfind, ⟨-, heq⟩ | ⟨hget, hfree, heq⟩ |
      ⟨data, target, hget, htarget, hne, hfile, heq⟩⟩
  · rw [heq]
    exact h
  · rw [heq]
    exact h
  · obtain ⟨path, hpath⟩ := h.tree.exists_dirPath h.reserved hguards.newparentChild hdir
    rw [heq]
    exact h.renameDirectory (h.tree.firstIno_le_of_child h.reserved hget hguards.parentChild) hget
      hpath hname hfree (houtside ino hfind)
  · obtain ⟨path, hpath⟩ := h.tree.exists_dirPath h.reserved hguards.newparentChild hdir
    rw [heq]
    exact h.renameFile (h.tree.firstIno_le_of_child h.reserved hget hguards.parentChild) hget
      hpath hname htarget hne hfile

lemma Filed.create (hkernel : FsService.FromKernel s (.create parent name))
    (hroom : s.inodeMgr.nextIno < dataTorrentInoBase) :
    Filed (s.mknod parent name).2 (Recorded.written s contents (.mknod parent name)) ∧
      Filed (s.create parent name).2 (Recorded.written s contents (.create parent name)) := by
  obtain ⟨hdir, hname, -⟩ := hkernel
  unfold Recorded.written
  dsimp only
  unfold FsService.mknod FsService.create
  cases hcheck : s.checkNew parent name true with
  | error e => exact ⟨h, h⟩
  | ok _ =>
    obtain ⟨hchild, hfree⟩ := FsService.checkNew_eq_ok hcheck
    have hadded : Filed (s.addInode (.file parent name [] false))
        (Function.update contents s.inodeMgr.nextIno []) := by
      refine h.addInode hchild hdir hname hfree rfl hroom
        (fun i hi => update_of_ne hi _ _) ?_
      rintro p n bytes u ⟨⟩
      rw [update_self]
    refine ⟨hadded, hadded.addHandle h.tree.first (get_insert_self _ _ _)
      h.nextIno_free.2 ?_⟩
    -- a handle number is given out with an inode number
    have hnext : (s.addInode (.file parent name [] false)).inodeMgr.nextIno =
        s.inodeMgr.nextIno + 1 := by
      refine addU64_of_lt ?_
      unfold dataTorrentInoBase at hroom
      omega
    rw [hnext]
    exact Nat.succ_le_succ h.counters

lemma Filed.mkdir (hkernel : FsService.FromKernel s (.mkdir f parent name))
    (hroom : s.inodeMgr.nextIno < dataTorrentInoBase) :
    Filed (s.mkdir f parent name).2 contents := by
  obtain ⟨hdir, hname, -⟩ := hkernel
  unfold FsService.mkdir
  cases hcheck : s.checkNew parent name false with
  | error e => exact h
  | ok _ =>
    obtain ⟨hchild, hfree⟩ := FsService.checkNew_eq_ok hcheck
    have hadded : Filed (s.addInode (.directory parent name)) contents := by
      refine h.addInode hchild hdir hname hfree rfl hroom (fun _ _ => rfl) ?_
      rintro p n bytes u ⟨⟩
    dsimp only
    split
    · exact hadded.same ⟨rfl, rfl, rfl, rfl⟩
    · exact hadded

end

end Requests

end TorrentFs.Fuse
