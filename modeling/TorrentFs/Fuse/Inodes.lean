import Mathlib.Data.Finset.Max
import TorrentFs.Lib.FinMap
import TorrentFs.Lib.Joined
import TorrentFs.Lib.NameTree
import TorrentFs.Lib.Text
import TorrentFs.Lib.Word

/-!
# The inode tables

`InodeManager` keeps the tree below `metadata/` as a map from inode numbers to inodes with parent
links, the cached inodes below `data/`, and the open file handles. Paths are found by walking the
parent links up to the root.

The walk of the source is a loop that ends at the root; here it is bounded by the number of inodes,
which a walk that visits none twice does not reach (`extractSourcePath_eq`).
-/

namespace TorrentFs.Fuse

open Text Word Joined NameTree List FinMap Finset Nat

def rootIno : ℕ := 1

def metadataIno : ℕ := 2

def dataIno : ℕ := 3

def statsIno : ℕ := 4

def maxTorrentSize : ℕ := 10 * 1024 * 1024

def dataTorrentInoBase : ℕ := 1000000

def statsInoOffset : ℕ := 10000000

def firstIno : ℕ := 5

def isDataIno (ino : ℕ) : Bool := dataTorrentInoBase ≤ ino

def isDataNamespace (ino : ℕ) : Bool := ino = dataIno || isDataIno ino

def isStatsIno (ino : ℕ) : Bool := statsInoOffset ≤ ino && ino < statsInoOffset + 10000000

inductive InodeData
  | directory (parent : ℕ) (name : Str)
  | file (parent : ℕ) (name : Str) (data : List UInt8) (unlinked : Bool)
deriving DecidableEq

inductive DataInode
  | sourcePathDir (path : Str)
  | torrentRoot (torrentId : ℕ) (sourcePath name filename : Str)
  | torrentDir (torrentId dirId : ℕ) (name dirPath torrentSourcePath torrentFilename : Str)
  | torrentFile (torrentId fileId : ℕ) (name : Str) (size : ℤ)
      (torrentSourcePath torrentFilename : Str)
deriving DecidableEq

namespace InodeData

def parent : InodeData → ℕ
  | .directory parent _ => parent
  | .file parent _ _ _ => parent

def name : InodeData → Str
  | .directory _ name => name
  | .file _ name _ _ => name

def linked : InodeData → Bool
  | .directory _ _ => true
  | .file _ _ _ unlinked => !unlinked

def isFile : InodeData → Bool
  | .directory _ _ => false
  | .file _ _ _ _ => true

def segment : InodeData → List Str
  | .directory _ name => if name.isEmpty then [] else [name]
  | .file _ name _ _ => [name]

def isChild (d : InodeData) (parent : ℕ) (name : Str) : Bool :=
  d.parent = parent && d.name = name && d.linked

end InodeData

structure InodeManager where
  inodes : FinMap ℕ InodeData
  dataInodes : FinMap ℕ DataInode
  openFiles : FinMap ℕ ℕ
  nextIno : ℕ
  nextFh : ℕ

namespace InodeManager

def new : InodeManager where
  inodes := (((FinMap.empty.insert rootIno (.directory 0 [])).insert metadataIno
    (.directory rootIno "metadata".toList)).insert dataIno
    (.directory rootIno "data".toList)).insert statsIno
    (.file rootIno ".stats".toList [] false)
  dataInodes := FinMap.empty
  openFiles := FinMap.empty
  nextIno := firstIno
  nextFh := 1

def pathSegments (m : FinMap ℕ InodeData) : ℕ → ℕ → List Str
  | 0, _ => []
  | fuel + 1, ino =>
    if ino = rootIno ∨ ino = 0 then []
    else
      match m.get ino with
      | none => []
      | some d => pathSegments m fuel d.parent ++ d.segment

def getFullPath (m : FinMap ℕ InodeData) (ino : ℕ) : Str :=
  joined '/' (pathSegments m (m.keys.card + 1) ino)

def extractSourcePath (m : FinMap ℕ InodeData) (parent : ℕ) : Str :=
  if parent = metadataIno then []
  else
    let fullPath := getFullPath m parent
    if "metadata/".toList.isPrefixOf fullPath then fullPath.drop "metadata/".length else fullPath

def metadataAbove (m : FinMap ℕ InodeData) : ℕ → ℕ → Bool
  | 0, _ => false
  | fuel + 1, ino =>
    if ino = rootIno ∨ ino = 0 then false
    else
      match m.get ino with
      | none => false
      | some (.directory parent _) =>
        parent = metadataIno || ino = metadataIno || metadataAbove m fuel parent
      | some (.file parent _ _ _) => metadataAbove m fuel parent

def isMetadataChild (m : FinMap ℕ InodeData) (ino : ℕ) : Bool :=
  ino = metadataIno || metadataAbove m (m.keys.card + 1) ino

/-- `find_child_by_name`: of several children with one name, which a tree does not have, the one
with the least number. -/
def findChildByName (m : FinMap ℕ InodeData) (parent : ℕ) (name : Str) : Option ℕ :=
  (m.keys.filter fun ino => (m.get ino).any fun d => d.isChild parent name).min

def openHandleCount (mgr : InodeManager) (ino : ℕ) : ℕ :=
  (mgr.openFiles.keys.filter fun fh => mgr.openFiles.get fh = some ino).card

def isUnlinkedFile (m : FinMap ℕ InodeData) (ino : ℕ) : Bool :=
  match m.get ino with
  | some (.file _ _ _ unlinked) => unlinked
  | _ => false

def unlinkFile (mgr : InodeManager) (ino : ℕ) : FinMap ℕ InodeData :=
  match mgr.inodes.get ino with
  | some (.file parent name data false) =>
    if 0 < mgr.openHandleCount ino then mgr.inodes.insert ino (.file parent name data true)
    else mgr.inodes.erase ino
  | some (.file _ _ _ true) => mgr.inodes
  | _ => if 0 < mgr.openHandleCount ino then mgr.inodes else mgr.inodes.erase ino

lemma extractSourcePath_setData {m : FinMap ℕ InodeData} {ino parent : ℕ} {name : Str}
    {data : List UInt8} {unlinked : Bool}
    (h : m.get ino = some (.file parent name data unlinked)) (data' : List UInt8) (i : ℕ) :
    extractSourcePath (m.insert ino (.file parent name data' unlinked)) i =
      extractSourcePath m i := by
  have hsegments : ∀ fuel i,
      pathSegments (m.insert ino (.file parent name data' unlinked)) fuel i =
        pathSegments m fuel i := by
    intro fuel
    induction fuel with
    | zero => exact fun _ => rfl
    | succ fuel ih =>
      intro i
      rw [pathSegments, pathSegments, get_insert]
      by_cases heq : i = ino
      · subst heq
        rw [if_pos rfl, h]
        simp only [InodeData.parent, InodeData.segment, ih]
      · rw [if_neg heq]
        cases m.get i with
        | none => rfl
        | some d => simp only [ih]
  have hkeys : (m.insert ino (.file parent name data' unlinked)).keys = m.keys :=
    insert_eq_of_mem (mem_keys_of_get h)
  unfold extractSourcePath getFullPath
  rw [hsegments, hkeys]

/-! ### The tree -/

def dirLinks (m : FinMap ℕ InodeData) (ino : ℕ) : Option (ℕ × Str) :=
  if ino < firstIno then none
  else
    match m.get ino with
    | some (.directory parent name) => some (parent, name)
    | _ => none

/-- The names from `metadata/` down to a directory. -/
abbrev DirPath (m : FinMap ℕ InodeData) (ino : ℕ) (path : List Str) : Prop :=
  Spells (dirLinks m) metadataIno ino path

/-- The inodes of `metadata/` form a tree of directories with fresh numbers above. -/
structure Tree (m : FinMap ℕ InodeData) (nextIno : ℕ) : Prop where
  root : m.get rootIno = some (.directory 0 [])
  metadata : m.get metadataIno = some (.directory rootIno "metadata".toList)
  -- the inodes that are there from the start are outside `metadata/`
  reserved : ∀ ino d, ino < firstIno → m.get ino = some d → d.parent ≤ rootIno
  first : firstIno ≤ nextIno
  fresh : ∀ ino d, m.get ino = some d → ino < nextIno
  placed : ∀ ino d, firstIno ≤ ino → m.get ino = some d → d.linked = true →
    ∃ path, DirPath m d.parent path
  named : ∀ ino d, firstIno ≤ ino → m.get ino = some d → d.linked = true →
    d.name ≠ [] ∧ '/' ∉ d.name
  siblings : ∀ ino ino' d d', firstIno ≤ ino → firstIno ≤ ino' → m.get ino = some d →
    m.get ino' = some d' → d.linked = true → d'.linked = true → d.parent = d'.parent →
    d.name = d'.name → ino = ino'

def Located (m : FinMap ℕ InodeData) (ino : ℕ) (location : Str × Str) : Prop :=
  firstIno ≤ ino ∧ ∃ parent name data path, m.get ino = some (.file parent name data false) ∧
    DirPath m parent path ∧ location = (joined '/' path, name)

section Paths

variable {m : FinMap ℕ InodeData} {nextIno ino ino' : ℕ} {path : List Str}
  {location location' : Str × Str}

lemma dirLinks_metadataIno : dirLinks m metadataIno = none := rfl

lemma dirLinks_eq_some {parent : ℕ} {name : Str} : dirLinks m ino = some (parent, name) ↔
      firstIno ≤ ino ∧ m.get ino = some (.directory parent name) := by
  unfold dirLinks
  by_cases hlt : ino < firstIno
  · simp [hlt, Nat.not_le.mpr hlt]
  · rw [if_neg hlt]
    cases hget : m.get ino with
    | none => simp
    | some d => cases d <;> simp [Nat.not_lt.mp hlt]

lemma Tree.distinctSiblings (h : Tree m nextIno) : DistinctSiblings (dirLinks m) := by
  rintro i j ⟨parent, name⟩ hi hj
  obtain ⟨hi, hgeti⟩ := dirLinks_eq_some.mp hi
  obtain ⟨hj, hgetj⟩ := dirLinks_eq_some.mp hj
  exact h.siblings i j _ _ hi hj hgeti hgetj rfl rfl rfl rfl

section

variable (h : Tree m nextIno) (hpath : DirPath m ino path)
include h hpath

lemma Tree.sepFree : SepFree '/' path := by
  induction hpath with
  | root => exact forall_mem_nil _
  | child hlink _ ih =>
    obtain ⟨hino, hget⟩ := dirLinks_eq_some.mp hlink
    obtain ⟨hne, hslash⟩ := h.named _ _ hino hget rfl
    exact ih.append (sepFree_singleton hne hslash)

lemma Tree.pathSegments_eq {fuel : ℕ} (hfuel : path.length < fuel) :
    pathSegments m fuel ino = "metadata".toList :: path := by
  induction hpath generalizing fuel with
  | root =>
    obtain ⟨fuel, rfl⟩ := exists_eq_succ_of_ne_zero (Nat.ne_zero_of_lt hfuel)
    have hroot : pathSegments m fuel rootIno = [] := by
      cases fuel with
      | zero => rfl
      | succ fuel => exact if_pos (.inl rfl)
    rw [pathSegments, if_neg (by decide), h.metadata]
    simp only [InodeData.parent, hroot, InodeData.segment]
    rfl
  | @child i parent name path hlink _ ih =>
    obtain ⟨fuel, rfl⟩ := exists_eq_succ_of_ne_zero (Nat.ne_zero_of_lt hfuel)
    obtain ⟨hino, hget⟩ := dirLinks_eq_some.mp hlink
    have hne : name ≠ [] := (h.named _ _ hino hget rfl).1
    rw [length_append, length_singleton] at hfuel
    have hreserved : ¬(i = rootIno ∨ i = 0) := by
      unfold rootIno
      unfold firstIno at hino
      omega
    rw [pathSegments, if_neg hreserved, hget]
    simp only [InodeData.parent, InodeData.segment]
    rw [ih (by omega), if_neg (by simpa using hne)]
    rfl

lemma Tree.extractSourcePath_eq : extractSourcePath m ino = joined '/' path := by
  unfold extractSourcePath
  by_cases hino : ino = metadataIno
  · subst hino
    rw [if_pos rfl, Spells.path_unique dirLinks_metadataIno hpath .root]
    rfl
  · have hne : path ≠ [] := by
      rintro rfl
      exact hino (Spells.eq_of_path h.distinctSiblings hpath .root)
    have hsome : ∀ i, (dirLinks m i).isSome → i ∈ m.keys := by
      intro i hi
      obtain ⟨⟨parent, name⟩, hlink⟩ := Option.isSome_iff_exists.mp hi
      exact mem_keys_of_get (dirLinks_eq_some.mp hlink).2
    have hlen := Spells.length_le_card hsome dirLinks_metadataIno hpath
    have hfull : getFullPath m ino = "metadata/".toList ++ joined '/' path := by
      rw [getFullPath, h.pathSegments_eq hpath (lt_succ_of_le hlen),
        ← singleton_append, joined_append (cons_ne_nil _ _) hne, joined_singleton]
      rfl
    rw [if_neg hino, hfull]
    rw [if_pos (by simp), drop_left' (by decide)]

end

lemma Located.unique (h : Located m ino location) (h' : Located m ino location') :
    location = location' := by
  obtain ⟨-, parent, name, data, path, hget, hpath, rfl⟩ := h
  obtain ⟨-, parent', name', data', path', hget', hpath', rfl⟩ := h'
  obtain ⟨rfl, rfl, -⟩ : parent = parent' ∧ name = name' ∧ _ := by
    simpa using hget.symm.trans hget'
  rw [Spells.path_unique dirLinks_metadataIno hpath hpath']

lemma Tree.eq_of_located (h : Tree m nextIno) (hi : Located m ino location)
    (hi' : Located m ino' location) : ino = ino' := by
  obtain ⟨hino, parent, name, data, path, hget, hpath, rfl⟩ := hi
  obtain ⟨hino', parent', name', data', path', hget', hpath', heq⟩ := hi'
  obtain ⟨hjoined, rfl⟩ := Prod.mk.inj heq
  obtain rfl := (h.sepFree hpath).joined_inj (h.sepFree hpath') hjoined
  obtain rfl := Spells.eq_of_path h.distinctSiblings hpath hpath'
  exact h.siblings _ _ _ _ hino hino' hget hget' rfl rfl rfl rfl

lemma Tree.located (h : Tree m nextIno) (hino : firstIno ≤ ino) {parent : ℕ} {name : Str}
    {data : List UInt8} (hget : m.get ino = some (.file parent name data false)) :
    Located m ino (extractSourcePath m parent, name) := by
  obtain ⟨path, hpath⟩ := h.placed ino _ hino hget rfl
  exact ⟨hino, parent, name, data, path, hget, hpath,
    congrArg (·, name) (h.extractSourcePath_eq hpath)⟩

end Paths

/-! ### Children -/

section Children

variable {m : FinMap ℕ InodeData} {ino parent : ℕ} {name : Str}

lemma InodeData.isChild_iff {d : InodeData} :
    d.isChild parent name = true ↔ d.parent = parent ∧ d.name = name ∧ d.linked = true := by
  simp [InodeData.isChild, and_assoc]

lemma exists_of_findChildByName (h : findChildByName m parent name = some ino) :
    ∃ d, m.get ino = some d ∧ d.parent = parent ∧ d.name = name ∧ d.linked = true := by
  have hmem := mem_of_min h
  rw [Finset.mem_filter, Option.any_eq_true] at hmem
  obtain ⟨-, d, hget, hchild⟩ := hmem
  exact ⟨d, hget, InodeData.isChild_iff.mp hchild⟩

lemma file_of_findChildByName (h : findChildByName m parent name = some ino)
    (hfile : (m.get ino).any InodeData.isFile = true) :
    ∃ data, m.get ino = some (.file parent name data false) := by
  obtain ⟨d, hget, rfl, rfl, hlinked⟩ := exists_of_findChildByName h
  rw [hget, Option.any_some] at hfile
  cases d with
  | directory => cases hfile
  | file p n data unlinked =>
    obtain rfl : unlinked = false := by simpa [InodeData.linked] using hlinked
    exact ⟨data, hget⟩

lemma findChildByName_eq_none (h : findChildByName m parent name = none) {d : InodeData}
    (hget : m.get ino = some d) (hlinked : d.linked = true) :
    ¬(d.parent = parent ∧ d.name = name) := by
  rintro ⟨hparent, hname⟩
  have hempty := Finset.min_eq_top.mp h
  have hmem : ino ∈ m.keys.filter fun ino => (m.get ino).any fun d => d.isChild parent name := by
    rw [Finset.mem_filter, hget]
    exact ⟨mem_keys_of_get hget, InodeData.isChild_iff.mpr ⟨hparent, hname, hlinked⟩⟩
  rw [hempty] at hmem
  exact absurd hmem (notMem_empty _)

end Children

/-! ### Changes of the tree -/

section Changes

variable {m : FinMap ℕ InodeData} {nextIno nextIno' ino ino' : ℕ} {location : Str × Str}

lemma Tree.insert (h : Tree m nextIno) {d : InodeData} (hino : firstIno ≤ ino)
    (hnext : nextIno ≤ nextIno') (hlt : ino < nextIno')
    (hpaths : ∀ i path, DirPath m i path → ∃ path', DirPath (m.insert ino d) i path')
    (hplaced : d.linked = true → ∃ path, DirPath m d.parent path)
    (hnamed : d.linked = true → d.name ≠ [] ∧ '/' ∉ d.name)
    (hsiblings : d.linked = true → ∀ i d', i ≠ ino → m.get i = some d' → d'.linked = true →
      ¬(d'.parent = d.parent ∧ d'.name = d.name)) : Tree (m.insert ino d) nextIno' := by
  have hlow : ∀ i, i < firstIno → i ≠ ino := fun i hi heq => by omega
  have hroot := (get_insert_ne m (hlow rootIno (by decide)) d).trans h.root
  have hmetadata := (get_insert_ne m (hlow metadataIno (by decide)) d).trans h.metadata
  refine ⟨hroot, hmetadata, fun i e hi hget => ?_, h.first.trans hnext, fun i e hget => ?_,
    fun i e hi hget hl => ?_, fun i e hi hget hl => ?_, fun i j e e' hi hj hget hget' hl hl' => ?_⟩
  · rw [get_insert_ne m (hlow i hi)] at hget
    exact h.reserved i e hi hget
  · by_cases heq : i = ino
    · exact heq ▸ hlt
    · rw [get_insert_ne m heq] at hget
      exact (h.fresh i e hget).trans_le hnext
  · have hold : ∃ path, DirPath m e.parent path := by
      by_cases heq : i = ino
      · subst heq
        obtain rfl := Option.some.inj ((get_insert_self m i d).symm.trans hget)
        exact hplaced hl
      · rw [get_insert_ne m heq] at hget
        exact h.placed i e hi hget hl
    obtain ⟨path, hpath⟩ := hold
    exact hpaths _ _ hpath
  · by_cases heq : i = ino
    · subst heq
      obtain rfl := Option.some.inj ((get_insert_self m i d).symm.trans hget)
      exact hnamed hl
    · rw [get_insert_ne m heq] at hget
      exact h.named i e hi hget hl
  · intro hparent hname
    by_cases heq : i = ino <;> by_cases heq' : j = ino
    · rw [heq, heq']
    · subst heq
      obtain rfl := Option.some.inj ((get_insert_self m i d).symm.trans hget)
      rw [get_insert_ne m heq'] at hget'
      exact absurd ⟨hparent.symm, hname.symm⟩ (hsiblings hl j e' heq' hget' hl')
    · subst heq'
      obtain rfl := Option.some.inj ((get_insert_self m j d).symm.trans hget')
      rw [get_insert_ne m heq] at hget
      exact absurd ⟨hparent, hname⟩ (hsiblings hl' i e heq hget hl)
    · rw [get_insert_ne m heq] at hget
      rw [get_insert_ne m heq'] at hget'
      exact h.siblings i j e e' hi hj hget hget' hl hl' hparent hname

lemma Tree.erase (h : Tree m nextIno) (hino : firstIno ≤ ino)
    (hleaf : ∀ i d, m.get i = some d → d.linked = true → d.parent ≠ ino) :
    Tree (m.erase ino) nextIno := by
  have hlow : ∀ i, i < firstIno → i ≠ ino := fun i hi heq => by omega
  have hof : ∀ {i d}, (m.erase ino).get i = some d → i ≠ ino ∧ m.get i = some d := by
    intro i d hget
    rw [get_erase] at hget
    split at hget
    · cases hget
    · next hne => exact ⟨hne, hget⟩
  have hget_erase : ∀ {i}, i ≠ ino → (m.erase ino).get i = m.get i := by
    intro i hi
    rw [get_erase, if_neg hi]
  refine ⟨(hget_erase (hlow rootIno (by decide))).trans h.root,
    (hget_erase (hlow metadataIno (by decide))).trans h.metadata,
    fun i d hi hget => h.reserved i d hi (hof hget).2, h.first,
    fun i d hget => h.fresh i d (hof hget).2, fun i d hi hget hl => ?_,
    fun i d hi hget hl => h.named i d hi (hof hget).2 hl,
    fun i j d d' hi hj hget hget' => h.siblings i j d d' hi hj (hof hget).2 (hof hget').2⟩
  obtain ⟨path, hpath⟩ := h.placed i d hi (hof hget).2 hl
  refine ⟨path, Spells.remove ?_ ?_ hpath (hleaf i d (hof hget).2 hl)⟩
  · intro j name hlink
    obtain ⟨-, hj⟩ := dirLinks_eq_some.mp hlink
    exact hleaf j _ hj rfl rfl
  · intro j hj
    rw [dirLinks, dirLinks, hget_erase hj]

def NotDirectory (m : FinMap ℕ InodeData) (ino : ℕ) : Prop :=
  ∀ parent name, m.get ino ≠ some (.directory parent name)

variable {m' : FinMap ℕ InodeData}

lemma dirLinks_eq_of_file (hother : ∀ i, i ≠ ino → m'.get i = m.get i)
    (hnot : NotDirectory m ino) (hnot' : NotDirectory m' ino) : dirLinks m' = dirLinks m := by
  funext i
  ext ⟨parent, name⟩
  rw [dirLinks_eq_some, dirLinks_eq_some]
  by_cases heq : i = ino
  · subst heq
    simp [hnot parent name, hnot' parent name]
  · rw [hother i heq]

lemma dirLinks_insert_file (hnot : NotDirectory m ino) (parent : ℕ) (name : Str)
    (data : List UInt8) (unlinked : Bool) :
    dirLinks (m.insert ino (.file parent name data unlinked)) = dirLinks m := by
  refine dirLinks_eq_of_file (fun i hi => get_insert_ne m hi _) hnot fun p n hget => ?_
  rw [get_insert_self] at hget
  cases hget

lemma located_congr (hlinks : dirLinks m' = dirLinks m)
    (hget : m'.get ino = m.get ino) : Located m' ino location ↔ Located m ino location := by
  unfold Located DirPath
  rw [hlinks, hget]

lemma located_insert_file (hnot : NotDirectory m ino) {parent : ℕ} {name : Str}
    {data : List UInt8} {unlinked : Bool} (hne : ino' ≠ ino) :
    Located (m.insert ino (.file parent name data unlinked)) ino' location ↔
      Located m ino' location :=
  located_congr (dirLinks_insert_file hnot parent name data unlinked)
    (get_insert_ne m hne _)

lemma located_insert_file_self (hnot : NotDirectory m ino) (hino : firstIno ≤ ino) {parent : ℕ}
    {name : Str} {data : List UInt8} {path : List Str} (hpath : DirPath m parent path) :
    Located (m.insert ino (.file parent name data false)) ino location ↔
      location = (joined '/' path, name) := by
  have hlocated : Located (m.insert ino (.file parent name data false)) ino
      (joined '/' path, name) := by
    refine ⟨hino, parent, name, data, path, get_insert_self m ino _, ?_, rfl⟩
    rw [DirPath, dirLinks_insert_file hnot]
    exact hpath
  exact ⟨fun h => h.unique hlocated, fun h => h ▸ hlocated⟩

lemma Tree.located_iff (h : Tree m nextIno)
    (hget : m'.get ino = m.get ino) (f : List Str → List Str) (g : Str → Str)
    (hpaths : ∀ d path, m.get ino = some d → d.linked = true → DirPath m d.parent path →
      DirPath m' d.parent (f path) ∧ g (joined '/' path) = joined '/' (f path)) :
    Located m' ino location ↔
      ∃ before, Located m ino before ∧ location = (g before.1, before.2) := by
  constructor
  · rintro ⟨hino, parent, name, data, path', hget', hpath', rfl⟩
    rw [hget] at hget'
    obtain ⟨path, hpath⟩ := h.placed ino _ hino hget' rfl
    obtain ⟨hmoved, htext⟩ := hpaths _ path hget' rfl hpath
    refine ⟨_, ⟨hino, parent, name, data, path, hget', hpath, rfl⟩, ?_⟩
    rw [Spells.path_unique dirLinks_metadataIno hpath' hmoved, htext]
  · rintro ⟨before, ⟨hino, parent, name, data, path, hget', hpath, rfl⟩, rfl⟩
    obtain ⟨hmoved, htext⟩ := hpaths _ path hget' rfl hpath
    exact ⟨hino, parent, name, data, f path, hget.trans hget', hmoved,
      congrArg (·, name) htext⟩

end Changes

end InodeManager

end TorrentFs.Fuse
