import TorrentFs.Fuse.OpenFiles
import TorrentFs.Lib.Forest

/-!
# Runs on the table of inodes

After every run of requests of the kernel, names in a directory are distinct, parents exist and lead
up to the root, and a file is in the table exactly as long as it is linked or open; its bytes can be
read through the handle.

Numbers are given out once and never again. From `1000000` on they belong to the files below
`data/`: a read does not look for them in the table, and the runs here stop before.
-/

namespace TorrentFs.Fuse

open Text Word Db Services InodeManager NameTree Joined FinMap

namespace FsService

/-! ### What is stated -/

def slice (data : List UInt8) (offset : ℤ) (size : ℕ) : List UInt8 :=
  if offset < 0 then [] else (data.drop offset.toNat).take size

def read (s : FsService) (elsewhere : ℕ → Except FsError (List UInt8)) (ino : ℕ) (offset : ℤ)
    (size : ℕ) : Except FsError (List UInt8) :=
  if ino = rootIno ∨ ino = metadataIno ∨ ino = dataIno then .error .isDirectory
  else if ino = statsIno ∨ isStatsIno ino then elsewhere ino
  else if isDataIno ino then
    match s.inodeMgr.dataInodes.get ino with
    | some (.torrentFile ..) => elsewhere ino
    | _ => .error .notFound
  else
    match s.inodes.get ino with
    | some (.file _ _ data _) => .ok (slice data offset size)
    | _ => .error .notFound

end FsService

/-- The inode `i`, which is not the root, has the parent `j`. -/
def ParentOf (m : FinMap ℕ InodeData) (i j : ℕ) : Prop :=
  i ≠ rootIno ∧ ∃ d, m.get i = some d ∧ d.parent = j

/-- A tree of distinct names; a file has a name or a handle, and handles read it. -/
structure WellFormed (r : Recorded) : Prop where
  names : ∀ i j d d', r.service.inodes.get i = some d → r.service.inodes.get j = some d' →
    d.linked = true → d'.linked = true → d.parent = d'.parent → d.name = d'.name → i = j
  parents : ∀ i d, i ≠ rootIno → r.service.inodes.get i = some d → d.linked = true →
    ∃ parent name, r.service.inodes.get d.parent = some (.directory parent name)
  chains : ∀ i d, r.service.inodes.get i = some d → d.linked = true →
    Relation.ReflTransGen (ParentOf r.service.inodes) i rootIno ∧
      ¬ Relation.TransGen (ParentOf r.service.inodes) i i
  files : ∀ i, (∃ d, r.service.inodes.get i = some d ∧ d.isFile = true) ↔
    (∃ d, r.service.inodes.get i = some d ∧ d.isFile = true ∧ d.linked = true) ∨
      ∃ fh, r.service.inodeMgr.openFiles.get fh = some i
  readable : ∀ fh i, r.service.inodeMgr.openFiles.get fh = some i → ∀ elsewhere offset size,
    r.service.read elsewhere i offset size = .ok (FsService.slice (r.contents i) offset size)

/-- The requests of a run, and the steps of threads. A new inode gets a number below those of the
files below `data/`. -/
def Asked (s : FsService) : FsAction → Prop
  | .openFile _ | .setattr _ _ => False
  | .mknod _ _ | .create _ _ | .mkdir _ _ _ => s.inodeMgr.nextIno < dataTorrentInoBase
  | _ => True

instance (s : FsService) : DecidablePred (Asked s)
  | .openFile _ | .setattr _ _ => inferInstanceAs (Decidable False)
  | .mknod _ _ | .create _ _ | .mkdir _ _ _ =>
    inferInstanceAs (Decidable (s.inodeMgr.nextIno < dataTorrentInoBase))
  | .write _ _ _ | .release _ _ | .unlink _ _ _ | .rmdir _ _ _ | .rename _ _ _ _ _
  | .persist _ _ | .finish _ => inferInstanceAs (Decidable True)

/-! ### Runs -/

namespace Recorded

def step (lib : Libraries) (r : Recorded) (a : FsAction) : Option Recorded :=
  (FsService.step lib r.service a).map fun s => ⟨s, written r.service r.contents a⟩

def IsFiled (r : Recorded) : Prop := Filed r.service r.contents

end Recorded

section Runs

variable {lib : Libraries} {r r' : Recorded}

lemma Filed.step {a : FsAction} (h : Filed r.service r.contents)
    (hkernel : FsService.FromKernel r.service a) (hasked : Asked r.service a)
    (hstep : Recorded.step lib r a = some r') : Filed r'.service r'.contents := by
  obtain ⟨s', hs', rfl⟩ := Option.map_eq_some_iff.mp hstep
  cases a with
  | mknod parent name =>
    cases hs'
    exact (h.create hkernel hasked).1
  | create parent name =>
    cases hs'
    exact (h.create hkernel hasked).2
  | mkdir f parent name =>
    cases hs'
    exact h.mkdir hkernel hasked
  | openFile | setattr => exact hasked.elim
  | write ino offset data =>
    cases hs'
    exact h.write ino offset data
  | release f fh =>
    cases hs'
    exact h.release f fh
  | unlink f parent name =>
    cases hs'
    exact h.unlink f parent name
  | rmdir f parent name =>
    cases hs'
    exact h.rmdir f parent name
  | rename f parent name newparent newname =>
    cases hs'
    exact h.rename hkernel
  | persist f i => exact h.same (tableIs_of_inodeMgr_eq (FsService.inodeMgr_persistStep hs'))
  | finish i => exact h.same (tableIs_of_inodeMgr_eq (FsService.inodeMgr_finishStep hs'))

lemma filed_new {s : FsService} (hnew : s.inodeMgr = InodeManager.new) : Filed s fun _ => [] := by
  have hinodes : s.inodes = InodeManager.new.inodes := congrArg InodeManager.inodes hnew
  have hclosed : ∀ fh i, s.inodeMgr.openFiles.get fh ≠ some i := by
    intro fh i
    rw [hnew]
    exact (Option.some_ne_none i).symm
  have hlinked : ∀ i ∈ InodeManager.new.inodes.keys, ∀ d ∈ InodeManager.new.inodes.get i,
      d.linked = true ∧ (d.isFile = true → d = .file rootIno ".stats".toList [] false) := by
    decide
  refine ⟨?_, fun i _ => by rw [hinodes], fun i p n bytes u hget => ?_, fun i d hget hl => ?_,
    fun fh i hfh => absurd hfh (hclosed fh i), fun fh _ i hfh _ => absurd hfh (hclosed fh i),
    fun fh i hfh => absurd hfh (hclosed fh i), ?_, ?_⟩
  · rw [hinodes, hnew]
    exact FsService.tree_new
  · rw [hinodes] at hget
    have hstats := (hlinked i (mem_keys_of_get hget) _ hget).2 rfl
    rw [InodeData.file.injEq] at hstats
    exact hstats.2.2.1
  · rw [hinodes] at hget
    rw [(hlinked i (mem_keys_of_get hget) d hget).1] at hl
    cases hl
  · rw [hnew]
    decide
  · rw [hnew]
    decide

variable {i : ℕ} {d : InodeData}

lemma reflTransGen_of_dirPath {m : FinMap ℕ InodeData} {nextIno : ℕ} {path : List Str}
    (h : Tree m nextIno) (hpath : DirPath m i path) :
    Relation.ReflTransGen (ParentOf m) i rootIno := by
  induction hpath with
  | root => exact .single ⟨by decide, _, h.metadata, rfl⟩
  | @child i parent name path hlink _ ih =>
    obtain ⟨hi, hget⟩ := dirLinks_eq_some.mp hlink
    have hne : i ≠ rootIno := by
      rintro rfl
      exact absurd hi (by decide)
    exact .head ⟨hne, _, hget, rfl⟩ ih

lemma new_inodes_cases : ∀ i ∈ InodeManager.new.inodes.keys, ∀ d ∈ InodeManager.new.inodes.get i,
      (i = rootIno ∨ d.parent = rootIno) ∧
      ∀ j ∈ InodeManager.new.inodes.keys, ∀ d' ∈ InodeManager.new.inodes.get j,
        d.parent = d'.parent → d.name = d'.name → i = j := by decide

section

variable (h : Filed r.service r.contents) (hi : r.service.inodes.get i = some d)
include h hi

lemma Filed.names {j : ℕ} {d' : InodeData} (hj : r.service.inodes.get j = some d')
    (hl : d.linked = true) (hl' : d'.linked = true) (hparent : d.parent = d'.parent)
    (hname : d.name = d'.name) : i = j := by
  by_cases hfirst : firstIno ≤ i
  · obtain ⟨path, hpath⟩ := h.tree.placed i d hfirst hi hl
    have hfirst' := h.tree.firstIno_le_of_parent hj (hparent ▸ hpath)
    exact h.tree.siblings i j d d' hfirst hfirst' hi hj hl hl' hparent hname
  · have hfirst' : ¬ firstIno ≤ j := by
      intro hle
      obtain ⟨path, hpath⟩ := h.tree.placed j d' hle hj hl'
      exact hfirst (h.tree.firstIno_le_of_parent hi (hparent ▸ hpath))
    rw [h.reserved i (Nat.not_le.mp hfirst)] at hi
    rw [h.reserved j (Nat.not_le.mp hfirst')] at hj
    exact (new_inodes_cases i (mem_keys_of_get hi) d hi).2 j (mem_keys_of_get hj) d'
      hj hparent hname

lemma Filed.parent_cases (hl : d.linked = true) :
    i = rootIno ∨ d.parent = rootIno ∨ ∃ path, DirPath r.service.inodes d.parent path := by
  by_cases hfirst : firstIno ≤ i
  · exact .inr (.inr (h.tree.placed i d hfirst hi hl))
  · rw [h.reserved i (Nat.not_le.mp hfirst)] at hi
    exact (new_inodes_cases i (mem_keys_of_get hi) d hi).1.imp_right .inl

lemma Filed.chain (hl : d.linked = true) :
    Relation.ReflTransGen (ParentOf r.service.inodes) i rootIno := by
  by_cases hroot : i = rootIno
  · rw [hroot]
  refine .head ⟨hroot, d, hi, rfl⟩ ?_
  rcases h.parent_cases hi hl with heq | heq | ⟨path, hpath⟩
  · exact absurd heq hroot
  · rw [heq]
  · exact reflTransGen_of_dirPath h.tree hpath

end

lemma Filed.readable (h : Filed r.service r.contents) {fh : ℕ}
    (hfh : r.service.inodeMgr.openFiles.get fh = some i)
    (elsewhere : ℕ → Except FsError (List UInt8)) (offset : ℤ) (size : ℕ) :
    r.service.read elsewhere i offset size = .ok (FsService.slice (r.contents i) offset size) := by
  obtain ⟨hfirst, d, hget, hfile⟩ := h.handles fh i hfh
  have hlt := (h.tree.fresh i d hget).trans_le h.room
  have hdata : ¬ isDataIno i = true := fun hle => Nat.not_le.mpr hlt (of_decide_eq_true hle)
  have hstats : ¬ (i = statsIno ∨ isStatsIno i = true) := by
    rintro (rfl | hle)
    · exact absurd hfirst (by decide)
    · have hoffset := of_decide_eq_true ((Bool.and_eq_true _ _).mp hle).1
      have hbase : dataTorrentInoBase ≤ statsInoOffset := by decide
      exact Nat.not_le.mpr hlt (hbase.trans hoffset)
  have hreserved : ¬ (i = rootIno ∨ i = metadataIno ∨ i = dataIno) := by
    rintro (rfl | rfl | rfl)
    all_goals exact absurd hfirst (by decide)
  cases d with
  | directory parent name => cases hfile
  | file parent name data unlinked =>
    unfold FsService.read
    rw [if_neg hreserved, if_neg hstats, if_neg hdata, hget, ← h.stored i _ _ _ _ hget]

lemma Filed.wellFormed (h : Filed r.service r.contents) : WellFormed r where
  names := fun _ _ _ _ hi hj hl hl' hparent hname => h.names hi hj hl hl' hparent hname
  parents := by
    intro i d hroot hi hl
    rcases h.parent_cases hi hl with heq | heq | ⟨path, hpath⟩
    · exact absurd heq hroot
    · exact ⟨0, [], heq ▸ h.tree.root⟩
    · generalize d.parent = parent at hpath
      cases hpath with
      | root => exact ⟨_, _, h.tree.metadata⟩
      | child hlink _ => exact ⟨_, _, (dirLinks_eq_some.mp hlink).2⟩
  chains := by
    intro i d hi hl
    have hchain := h.chain hi hl
    refine ⟨hchain, Forest.not_transGen_of_reflTransGen ?_ (fun j hj => hj.1 rfl) hchain⟩
    rintro k j j' ⟨-, e, he, rfl⟩ ⟨-, e', he', rfl⟩
    obtain rfl := Option.some.inj (he.symm.trans he')
    rfl
  files := by
    intro i
    constructor
    · rintro ⟨d, hi, hfile⟩
      cases hl : d.linked with
      | true => exact .inl ⟨d, hi, hfile, hl⟩
      | false => exact .inr (h.held i d hi hl)
    · rintro (⟨d, hi, hfile, -⟩ | ⟨fh, hfh⟩)
      · exact ⟨d, hi, hfile⟩
      · exact (h.handles fh i hfh).2
  readable := fun _ _ hfh elsewhere offset size => h.readable hfh elsewhere offset size

/-- After every run of requests from a new file system, on whatever database, the table of inodes is
as it should be. -/
theorem wellFormed_of_run (lib : Libraries) {s : FsService} (hnew : s.inodeMgr = InodeManager.new)
    {as : List FsAction} (hrun : Run.runFrom (Recorded.step lib) ⟨s, fun _ => []⟩ as = some r)
    (halong : Run.Along (Recorded.step lib)
      (fun r a => FsService.FromKernel r.service a ∧ Asked r.service a) ⟨s, fun _ => []⟩ as) :
    WellFormed r := by
  have hstep : ∀ r a r', Recorded.IsFiled r →
      FsService.FromKernel r.service a ∧ Asked r.service a → Recorded.step lib r a = some r' →
        Recorded.IsFiled r' :=
    fun _ _ _ h ha hs => Filed.step h ha.1 ha.2 hs
  have hstart : Recorded.IsFiled ⟨s, fun _ => []⟩ := filed_new hnew
  exact Filed.wellFormed (Run.invariant_of_run_along hstep hstart halong hrun)

end Runs

/-! ### An open file that has been unlinked, and its directory removed -/

def noTorrents : Libraries := ⟨fun _ => none, fun _ => []⟩

def unlinkOpenFile : List FsAction :=
  [.mkdir FsService.noFaults metadataIno "d".toList, .create firstIno "a.torrent".toList,
    .write (firstIno + 1) 0 [1, 2], .unlink FsService.noFaults firstIno "a.torrent".toList,
    .rmdir FsService.noFaults metadataIno "d".toList]

theorem wellFormed_of_unlinkOpenFile :
    ∃ r, Run.runFrom (Recorded.step noTorrents) ⟨FsService.new, fun _ => []⟩ unlinkOpenFile =
        some r ∧ r.service.inodes.get (firstIno + 1) =
        some (.file firstIno "a.torrent".toList [1, 2] true) ∧ WellFormed r := by
  obtain ⟨r, hr, hend⟩ : ∃ r, Run.runFrom (Recorded.step noTorrents) ⟨FsService.new, fun _ => []⟩
      unlinkOpenFile = some r ∧ r.service.inodes.get (firstIno + 1) =
        some (.file firstIno "a.torrent".toList [1, 2] true) := by decide +kernel
  exact ⟨r, hr, hend, wellFormed_of_run noTorrents rfl hr (by decide +kernel)⟩

/-! ### A file beyond the numbers of `metadata/` -/

def comeAndGo : ℕ → List FsAction
  | 0 => [.create metadataIno "a.torrent".toList]
  | n + 1 =>
    .mkdir FsService.noFaults metadataIno "d".toList ::
      .rmdir FsService.noFaults metadataIno "d".toList :: comeAndGo n

def newAt (n : ℕ) : InodeManager := { InodeManager.new with nextIno := n }

section ComeAndGo

variable {lib : Libraries} {s : FsService} {n : ℕ} {name : Str}

lemma new_inodes_parent_ne {i : ℕ} {d : InodeData}
    (hget : InodeManager.new.inodes.get i = some d) : d.parent < metadataIno := by
  have hall : ∀ i ∈ InodeManager.new.inodes.keys, ∀ d ∈ InodeManager.new.inodes.get i,
      d.parent < metadataIno := by decide
  exact hall i (mem_keys_of_get hget) d hget

lemma checkNew_of_new (hinodes : s.inodes = InodeManager.new.inodes) {file : Bool}
    (hname : file = true → FsService.isTorrentName name = true) :
    s.checkNew metadataIno name file = .ok () := by
  have hfree : findChildByName InodeManager.new.inodes metadataIno name = none := by
    cases hfind : findChildByName InodeManager.new.inodes metadataIno name with
    | none => rfl
    | some i =>
      obtain ⟨d, hget, hparent, -⟩ := exists_of_findChildByName hfind
      exact absurd hparent (new_inodes_parent_ne hget).ne
  unfold FsService.checkNew
  rw [hinodes, hfree, if_neg (by decide), if_neg (by decide), if_neg, if_neg (by decide)]
  cases file with
  | false => simp
  | true => simp [hname rfl]

lemma findChildByName_insert_new (n : ℕ) :
    findChildByName (InodeManager.new.inodes.insert n (.directory metadataIno "d".toList))
      metadataIno "d".toList = some n := by
  cases hfind : findChildByName (InodeManager.new.inodes.insert n
      (.directory metadataIno "d".toList)) metadataIno "d".toList with
  | none =>
    exact absurd ⟨rfl, rfl⟩ (findChildByName_eq_none hfind (get_insert_self _ n _) rfl)
  | some i =>
    obtain ⟨d, hget, hparent, -⟩ := exists_of_findChildByName hfind
    by_cases hi : i = n
    · rw [hi]
    · rw [get_insert_ne _ hi] at hget
      exact absurd hparent (new_inodes_parent_ne hget).ne

lemma inodeMgr_mkdir (hmgr : s.inodeMgr = newAt n)
    (hn : n + 1 < 2 ^ 64) :
    (s.mkdir FsService.noFaults metadataIno "d".toList).2.inodeMgr =
      { newAt (n + 1) with
        inodes := InodeManager.new.inodes.insert n (.directory metadataIno "d".toList) } := by
  have hinodes : s.inodes = InodeManager.new.inodes :=
    (congrArg InodeManager.inodes hmgr).trans rfl
  have hadded : (s.addInode (.directory metadataIno "d".toList)).inodeMgr =
      { newAt (n + 1) with
        inodes := InodeManager.new.inodes.insert n (.directory metadataIno "d".toList) } := by
    unfold FsService.addInode
    rw [hmgr]
    dsimp only [newAt]
    rw [addU64_of_lt hn]
  unfold FsService.mkdir
  rw [checkNew_of_new hinodes (fun h => by cases h)]
  dsimp only
  split
  · exact hadded
  · exact hadded

lemma inodeMgr_rmdir (hn : firstIno ≤ n) (hmgr : s.inodeMgr = { newAt (n + 1) with
      inodes := InodeManager.new.inodes.insert n (.directory metadataIno "d".toList) }) :
    (s.rmdir FsService.noFaults metadataIno "d".toList).2.inodeMgr = newAt (n + 1) := by
  have hinodes : s.inodes =
      InodeManager.new.inodes.insert n (.directory metadataIno "d".toList) :=
    congrArg InodeManager.inodes hmgr
  have hmeta : metadataIno < firstIno := by decide
  have hleaf : ¬ ∃ i ∈ s.inodes.keys,
      (s.inodes.get i).any fun d => d.parent = n && d.linked := by
    rintro ⟨i, -, hi⟩
    rw [Option.any_eq_true] at hi
    obtain ⟨d, hget, hparent⟩ := hi
    rw [Bool.and_eq_true, decide_eq_true_eq] at hparent
    rw [hinodes, get_insert] at hget
    split at hget
    · cases hget
      exact absurd hparent.1 (by simp only [InodeData.parent]; omega)
    · have := new_inodes_parent_ne hget
      omega
  have herase : (InodeManager.new.inodes.insert n (.directory metadataIno "d".toList)).erase n =
      InodeManager.new.inodes := by
    ext1 i
    rw [get_erase]
    by_cases hi : i = n
    · subst hi
      have hfresh : ∀ j ∈ InodeManager.new.inodes.keys, j < firstIno := by decide
      rw [if_pos rfl, FinMap.notMem_keys.mp fun hmem => absurd (hfresh i hmem) (by omega)]
    · rw [if_neg hi, get_insert_ne _ hi]
  have hretain : ∀ keep, (FinMap.empty : FinMap ℕ DataInode).retain keep = FinMap.empty := by
    intro keep
    ext1 i
    rw [get_retain]
    rfl
  have hafter : ((s.setInodes (s.inodes.erase n)).setDataInodes (s.inodeMgr.dataInodes.retain
      (FsService.keepsAfterRmdir (extractSourcePath s.inodes n)))).inodeMgr =
      newAt (n + 1) := by
    unfold FsService.setInodes FsService.setDataInodes
    rw [hinodes, herase, hmgr]
    dsimp only [newAt, InodeManager.new]
    rw [hretain]
  unfold FsService.rmdir
  rw [if_neg (by decide), if_neg (by simp [isMetadataChild]), hinodes,
    findChildByName_insert_new]
  dsimp only
  rw [get_insert_self]
  dsimp only
  rw [← hinodes, if_neg hleaf]
  split
  · exact hafter
  · exact hafter

lemma comeAndGo_run (lib : Libraries) (k : ℕ) (contents : ℕ → List UInt8)
    (hfirst : firstIno ≤ n) (hn : n + k + 1 < 2 ^ 64) (hmgr : s.inodeMgr = newAt n) :
    ∃ r, Run.runFrom (Recorded.step lib) ⟨s, contents⟩ (comeAndGo k) = some r ∧
      Run.Along (Recorded.step lib) (fun r a => FsService.FromKernel r.service a) ⟨s, contents⟩
        (comeAndGo k) ∧ r.service.inodeMgr.dataInodes = FinMap.empty ∧
      r.service.inodeMgr.openFiles.get 1 = some (n + k) ∧
      r.service.inodes.get (n + k) = some (.file metadataIno "a.torrent".toList [] false) := by
  have hinodes : s.inodes = InodeManager.new.inodes :=
    (congrArg InodeManager.inodes hmgr).trans rfl
  have hnext : s.inodeMgr.nextIno = n := congrArg InodeManager.nextIno hmgr
  have hdir : (s.inodes.get metadataIno).any InodeData.isFile = false := by
    rw [hinodes]
    decide
  induction k generalizing s n contents with
  | zero =>
    have hkernel : FsService.FromKernel s (.create metadataIno "a.torrent".toList) :=
      ⟨hdir, by decide, by omega⟩
    have hcreate : (s.create metadataIno "a.torrent".toList).2 =
        (s.addInode (.file metadataIno "a.torrent".toList [] false)).addHandle
          s.inodeMgr.nextIno := by
      unfold FsService.create
      rw [checkNew_of_new hinodes (fun _ => by decide)]
    refine ⟨_, rfl, ⟨hkernel, fun _ _ => trivial⟩, ?_, ?_, ?_⟩
    all_goals
      rw [hcreate]
    · exact congrArg InodeManager.dataInodes hmgr
    · have hfh : s.inodeMgr.nextFh = 1 := congrArg InodeManager.nextFh hmgr
      have hget := get_insert_self s.inodeMgr.openFiles s.inodeMgr.nextFh
        s.inodeMgr.nextIno
      rw [hfh, hnext] at hget
      rw [hnext]
      exact hfh ▸ hget
    · have hget := get_insert_self s.inodes s.inodeMgr.nextIno
        (.file metadataIno "a.torrent".toList [] false)
      exact hnext ▸ hget
  | succ k ih =>
    set s₁ := (s.mkdir FsService.noFaults metadataIno "d".toList).2 with hs₁
    set s₂ := (s₁.rmdir FsService.noFaults metadataIno "d".toList).2 with hs₂
    have hmgr₁ := inodeMgr_mkdir hmgr (by omega)
    have hmgr₂ : s₂.inodeMgr = newAt (n + 1) :=
      inodeMgr_rmdir hfirst hmgr₁
    have hinodes₂ : s₂.inodes = InodeManager.new.inodes :=
      (congrArg InodeManager.inodes hmgr₂).trans rfl
    obtain ⟨r, hrun, halong, hrest⟩ := ih contents (by omega) (by omega) hmgr₂
      hinodes₂ (congrArg InodeManager.nextIno hmgr₂) (by rw [hinodes₂]; decide)
    have hkernel : FsService.FromKernel s (.mkdir FsService.noFaults metadataIno "d".toList) :=
      ⟨hdir, by decide, by omega⟩
    refine ⟨r, ?_, ⟨hkernel, ?_⟩, by rwa [Nat.add_assoc, Nat.add_comm 1 k] at hrest⟩
    · exact hrun
    · rintro _ ⟨⟩
      refine ⟨trivial, ?_⟩
      rintro _ ⟨⟩
      exact halong

/-- The inode with the number `1000000` is a file with an open handle, and a read takes it for a
file below `data/`. -/
theorem open_file_cannot_be_read :
    ∃ r, Run.runFrom (Recorded.step noTorrents) ⟨FsService.new, fun _ => []⟩
        (comeAndGo 999995) = some r ∧
      Run.Along (Recorded.step noTorrents) (fun r a => FsService.FromKernel r.service a)
        ⟨FsService.new, fun _ => []⟩ (comeAndGo 999995) ∧
      r.service.inodeMgr.openFiles.get 1 = some 1000000 ∧
      r.service.inodes.get 1000000 = some (.file metadataIno "a.torrent".toList [] false) ∧
      ∀ elsewhere offset size, r.service.read elsewhere 1000000 offset size = .error .notFound := by
  have hmgr : FsService.new.inodeMgr = newAt firstIno := rfl
  obtain ⟨r, hrun, halong, hdata, hopen, hget⟩ :=
    comeAndGo_run noTorrents 999995 (fun _ => []) le_rfl (by decide) hmgr
  refine ⟨r, hrun, halong, hopen, hget, fun elsewhere offset size => ?_⟩
  unfold FsService.read
  rw [if_neg (by decide), if_neg (by decide), if_pos (by decide), hdata]
  rfl

end ComeAndGo

end TorrentFs.Fuse
