import Mathlib.Tactic.IntervalCases
import TorrentFs.Db.RenameDirectory
import TorrentFs.Fuse.Inodes

/-!
# Where the files are through a change of the tree

Every call changes the tree below `metadata/` in one of a few ways: an inode is added, a file is
replaced or retired, a directory is removed or moved with everything below it. Each of them keeps
the shape of the tree, and moves the names of a set of files in a way that can be said without the
tree.
-/

namespace TorrentFs.Fuse

open Text Joined NameTree Db List FinMap

namespace InodeManager

def locations (m : FinMap ℕ InodeData) (files : Finset ℕ) : Set (Str × Str) :=
  {location | ∃ ino ∈ files, Located m ino location}

/-- The trees differ in one inode, which is a directory in neither of them. -/
structure FileChange (m m' : FinMap ℕ InodeData) (ino : ℕ) : Prop where
  others : ∀ i, i ≠ ino → m'.get i = m.get i
  before : NotDirectory m ino
  after : NotDirectory m' ino

section Locations

variable {m m' : FinMap ℕ InodeData} {nextIno ino : ℕ} {files : Finset ℕ} {old new : Str × Str}

lemma locations_congr (h : ∀ i ∈ files, ∀ location, Located m' i location ↔ Located m i location) :
    locations m' files = locations m files := by
  ext location
  exact exists_congr fun i => and_congr_right fun hi => h i hi location

lemma Tree.notMem_locations (h : Tree m nextIno) (hold : Located m ino old)
    (hnot : ino ∉ files) : old ∉ locations m files := by
  rintro ⟨i, hi, hlocated⟩
  exact hnot (h.eq_of_located hlocated hold ▸ hi)

section

variable (h : Tree m nextIno)
  (hother : ∀ i, i ≠ ino → ∀ location, Located m' i location ↔ Located m i location)
  (hold : Located m ino old)
include h hother hold

lemma locations_retireFile (hgone : ∀ location, ¬ Located m' ino location) :
    locations m' files = locations m files \ {old} := by
  ext location
  constructor
  · rintro ⟨i, hi, hlocated⟩
    have hne : i ≠ ino := fun heq => hgone location (heq ▸ hlocated)
    have hbefore := (hother i hne location).mp hlocated
    refine ⟨⟨i, hi, hbefore⟩, ?_⟩
    rintro rfl
    exact hne (h.eq_of_located hbefore hold)
  · rintro ⟨⟨i, hi, hlocated⟩, hne⟩
    refine ⟨i, hi, (hother i ?_ location).mpr hlocated⟩
    rintro rfl
    exact hne (hlocated.unique hold)

lemma locations_moveFile (hnew : ∀ location, Located m' ino location ↔ location = new)
    (hmem : ino ∈ files) : locations m' files = insert new (locations m files \ {old}) := by
  ext location
  constructor
  · rintro ⟨i, hi, hlocated⟩
    by_cases hne : i = ino
    · subst hne
      exact .inl ((hnew location).mp hlocated)
    · have hbefore := (hother i hne location).mp hlocated
      refine .inr ⟨⟨i, hi, hbefore⟩, ?_⟩
      rintro rfl
      exact hne (h.eq_of_located hbefore hold)
  · rintro (rfl | ⟨⟨i, hi, hlocated⟩, hne⟩)
    · exact ⟨ino, hmem, (hnew _).mpr rfl⟩
    · refine ⟨i, hi, (hother i ?_ location).mpr hlocated⟩
      rintro rfl
      exact hne (hlocated.unique hold)

end

end Locations

section Files

variable {m m' : FinMap ℕ InodeData} {nextIno ino : ℕ} {parent : ℕ} {name : Str}
  {data : List UInt8} {unlinked : Bool} {location : Str × Str}

lemma FileChange.dirLinks_eq (h : FileChange m m' ino) : dirLinks m' = dirLinks m :=
  dirLinks_eq_of_file h.others h.before h.after

variable {i : ℕ} {d : InodeData} {path : List Str}

lemma FileChange.located_iff (h : FileChange m m' ino) (hne : i ≠ ino)
    (location : Str × Str) : Located m' i location ↔ Located m i location :=
  located_congr h.dirLinks_eq (h.others i hne)

lemma notDirectory_of_file (hget : m.get ino = some (.file parent name data unlinked)) :
    NotDirectory m ino := by
  intro p n hdir
  rw [hget] at hdir
  cases hdir

lemma fileChange_insert (hnot : NotDirectory m ino) (parent : ℕ) (name : Str)
    (data : List UInt8) (unlinked : Bool) :
    FileChange m (m.insert ino (.file parent name data unlinked)) ino :=
  ⟨fun _ hne => get_insert_ne m hne _, hnot,
    notDirectory_of_file (get_insert_self m ino _)⟩

lemma fileChange_erase (hnot : NotDirectory m ino) : FileChange m (m.erase ino) ino := by
  refine ⟨fun i hne => ?_, hnot, fun p n hdir => ?_⟩
  · rw [get_erase, if_neg hne]
  · rw [get_erase, if_pos rfl] at hdir
    cases hdir

lemma Tree.parent_ne_of_notDirectory (h : Tree m nextIno) (hino : firstIno ≤ ino)
    (hnot : NotDirectory m ino) (hget : m.get i = some d)
    (hlinked : d.linked = true) : d.parent ≠ ino := by
  rintro heq
  by_cases hi : i < firstIno
  · have hparent := h.reserved i d hi hget
    have hroot : rootIno < firstIno := by decide
    omega
  · obtain ⟨path, hpath⟩ := h.placed i d (Nat.not_lt.mp hi) hget hlinked
    rw [heq] at hpath
    cases hpath with
    | root => exact absurd hino (by decide)
    | child hlink _ => exact hnot _ _ (dirLinks_eq_some.mp hlink).2

lemma Tree.firstIno_le_of_parent (h : Tree m nextIno)
    (hget : m.get i = some d) (hpath : DirPath m d.parent path) : firstIno ≤ i := by
  by_contra hi
  have hreserved := h.reserved i d (Nat.not_le.mp hi) hget
  have hroot : rootIno < metadataIno ∧ rootIno < firstIno := by decide
  generalize d.parent = parent at hpath hreserved
  cases hpath with
  | root => omega
  | child hlink _ =>
    have hfirst := (dirLinks_eq_some.mp hlink).1
    omega

lemma Tree.replaceFile (h : Tree m nextIno) (hino : firstIno ≤ ino) (hlt : ino < nextIno)
    (hnot : NotDirectory m ino) (hplaced : unlinked = false → ∃ path, DirPath m parent path)
    (hnamed : unlinked = false → name ≠ [] ∧ '/' ∉ name)
    (hfree : unlinked = false → ∀ i d, i ≠ ino → m.get i = some d → d.linked = true →
      ¬(d.parent = parent ∧ d.name = name)) :
    Tree (m.insert ino (.file parent name data unlinked)) nextIno := by
  refine h.insert hino le_rfl hlt (fun i path hpath => ⟨path, ?_⟩) ?_ ?_ ?_
  · rwa [DirPath, dirLinks_insert_file hnot]
  · exact fun hlinked => hplaced (by simpa [InodeData.linked] using hlinked)
  · exact fun hlinked => hnamed (by simpa [InodeData.linked] using hlinked)
  · exact fun hlinked => hfree (by simpa [InodeData.linked] using hlinked)

lemma Tree.setData (h : Tree m nextIno) (hino : firstIno ≤ ino)
    (hget : m.get ino = some (.file parent name data unlinked)) (data' : List UInt8) :
    Tree (m.insert ino (.file parent name data' unlinked)) nextIno := by
  refine h.replaceFile hino (h.fresh ino _ hget) (notDirectory_of_file hget) ?_ ?_ ?_
  · rintro rfl
    exact h.placed ino _ hino hget rfl
  · rintro rfl
    exact h.named ino _ hino hget rfl
  · rintro rfl i d hne hget' hlinked ⟨hparent, hname⟩
    obtain ⟨path, hpath⟩ := h.placed ino _ hino hget rfl
    have hi := h.firstIno_le_of_parent hget' (hparent ▸ hpath)
    exact hne (h.siblings i ino d _ hi hino hget' hget hlinked rfl hparent hname)

lemma located_setData (hget : m.get ino = some (.file parent name data unlinked))
    (data' : List UInt8) (i : ℕ) :
    Located (m.insert ino (.file parent name data' unlinked)) i location ↔
      Located m i location := by
  have hnot := notDirectory_of_file hget
  by_cases hne : i = ino
  · subst hne
    unfold Located DirPath
    rw [dirLinks_insert_file hnot, get_insert_self, hget]
    simp only [Option.some.injEq, InodeData.file.injEq]
    grind
  · exact located_insert_file hnot hne

lemma Tree.retire (h : Tree m nextIno) (hino : firstIno ≤ ino)
    (hget : m.get ino = some (.file parent name data unlinked))
    (hm' : m' = m.insert ino (.file parent name data true) ∨ m' = m.erase ino) :
    Tree m' nextIno ∧ FileChange m m' ino ∧ ∀ d, m'.get ino = some d → d.linked = false := by
  have hnot := notDirectory_of_file hget
  rcases hm' with rfl | rfl
  · refine ⟨h.replaceFile hino (h.fresh ino _ hget) hnot ?_ ?_ ?_,
      fileChange_insert hnot _ _ _ _, fun d hd => ?_⟩
    · exact fun hfalse => absurd hfalse (by decide)
    · exact fun hfalse => absurd hfalse (by decide)
    · exact fun hfalse => absurd hfalse (by decide)
    · rw [get_insert_self, Option.some.injEq] at hd
      exact hd ▸ rfl
  · refine ⟨h.erase hino fun i d hi hlinked => ?_, fileChange_erase hnot, fun d hd => ?_⟩
    · exact h.parent_ne_of_notDirectory hino hnot hi hlinked
    · rw [get_erase, if_pos rfl] at hd
      cases hd

lemma not_located_of_not_linked (h : ∀ d, m.get ino = some d → d.linked = false) :
    ¬ Located m ino location := by
  rintro ⟨-, _, _, _, _, hget, -⟩
  exact absurd (h _ hget) (by simp [InodeData.linked])

lemma Tree.extractSourcePath_replaceFile (h : Tree m nextIno) (hino : firstIno ≤ ino)
    (hget : m.get ino = some (.file parent name data unlinked))
    (hpath : DirPath m i path) (parent' : ℕ) (name' : Str) (data' : List UInt8) (unlinked' : Bool) :
    extractSourcePath (m.insert ino (.file parent' name' data' unlinked')) i =
      extractSourcePath m i := by
  have hsegments : ∀ fuel,
      pathSegments (m.insert ino (.file parent' name' data' unlinked')) fuel i =
      pathSegments m fuel i := by
    -- the way up leads through directories only
    induction hpath with
    | root =>
      rintro (_ | fuel)
      · rfl
      · have hne : metadataIno ≠ ino := by
          rintro rfl
          exact absurd hino (by decide)
        have hroot : ∀ m', pathSegments m' fuel rootIno = [] := by
          intro m'
          cases fuel with
          | zero => rfl
          | succ fuel => exact if_pos (.inl rfl)
        rw [pathSegments, pathSegments, get_insert_ne _ hne, h.metadata]
        simp only [InodeData.parent, hroot]
    | @child i p n path hlink hp ih =>
      rintro (_ | fuel)
      · rfl
      · have hdir := (dirLinks_eq_some.mp hlink).2
        have hne : i ≠ ino := by
          rintro rfl
          exact notDirectory_of_file hget _ _ hdir
        rw [pathSegments, pathSegments, get_insert_ne _ hne, hdir]
        simp only [InodeData.parent, ih fuel]
  have hkeys : (m.insert ino (.file parent' name' data' unlinked')).keys = m.keys :=
    Finset.insert_eq_of_mem (mem_keys_of_get hget)
  unfold extractSourcePath getFullPath
  rw [hsegments, hkeys]

lemma unlinkFile_cases {mgr : InodeManager}
    (hget : mgr.inodes.get ino = some (.file parent name data false)) :
    (0 < mgr.openHandleCount ino ∧
        mgr.unlinkFile ino = mgr.inodes.insert ino (.file parent name data true)) ∨
      mgr.openHandleCount ino = 0 ∧ mgr.unlinkFile ino = mgr.inodes.erase ino := by
  unfold unlinkFile
  rw [hget]
  dsimp only
  split
  · next hopen => exact .inl ⟨hopen, rfl⟩
  · next hclosed => exact .inr ⟨Nat.eq_zero_of_not_pos hclosed, rfl⟩

lemma unlinkFile_insert {mgr mgr' : InodeManager} {source : ℕ}
    (hm : mgr'.inodes = mgr.inodes.insert source d) (hopen : mgr'.openFiles = mgr.openFiles)
    (hne : ino ≠ source) (hget : mgr.inodes.get ino = some (.file parent name data false)) :
    mgr'.unlinkFile ino = (mgr.unlinkFile ino).insert source d := by
  have hget' : mgr'.inodes.get ino = some (.file parent name data false) := by
    rw [hm, get_insert_ne _ hne, hget]
  have hcount : mgr'.openHandleCount ino = mgr.openHandleCount ino := by
    rw [openHandleCount, openHandleCount, hopen]
  unfold unlinkFile
  rw [hget, hget', hcount, hm]
  dsimp only
  split
  · ext1 i
    by_cases hi : i = ino
    · subst hi
      rw [get_insert_self, get_insert_ne _ hne, get_insert_self]
    · rw [get_insert_ne _ hi, get_insert, get_insert,
        get_insert_ne _ hi]
  · ext1 i
    rw [get_erase, get_insert, get_insert, get_erase]
    by_cases hi : i = ino
    · subst hi
      rw [if_pos rfl, if_neg hne, if_pos rfl]
    · rw [if_neg hi, if_neg hi]

lemma Tree.free_of_retired (h : Tree m nextIno) (hino : firstIno ≤ ino)
    (hget : m.get ino = some (.file parent name data false))
    (hpath : DirPath m parent path) (hchange : FileChange m m' ino)
    (hgone : ∀ d, m'.get ino = some d → d.linked = false)
    (hi : m'.get i = some d) (hlinked : d.linked = true) :
    ¬(d.parent = parent ∧ d.name = name) := by
  rintro ⟨rfl, rfl⟩
  by_cases heq : i = ino
  · subst heq
    rw [hgone d hi] at hlinked
    cases hlinked
  · rw [hchange.others i heq] at hi
    have hfirst := h.firstIno_le_of_parent hi hpath
    exact heq (h.siblings i ino d _ hfirst hino hi hget hlinked rfl rfl rfl)

end Files

section Directories

variable {m : FinMap ℕ InodeData} {nextIno ino : ℕ} {path : List Str} {location : Str × Str}

lemma Tree.add (h : Tree m nextIno) {d : InodeData} (hpath : DirPath m d.parent path)
    (hname : d.name ≠ [] ∧ '/' ∉ d.name) (hfree : findChildByName m d.parent d.name = none) :
    Tree (m.insert nextIno d) (nextIno + 1) ∧ ∀ i, i ≠ nextIno → ∀ location,
      (Located (m.insert nextIno d) i location ↔ Located m i location) := by
  have hnew : m.get nextIno = none := by
    by_contra hsome
    obtain ⟨d', hd'⟩ := Option.ne_none_iff_exists'.mp hsome
    exact absurd (h.fresh nextIno d' hd') (lt_irrefl _)
  have hsub : ∀ i link, dirLinks m i = some link → dirLinks (m.insert nextIno d) i = some link := by
    rintro i ⟨p, n⟩ hlink
    obtain ⟨hi, hget⟩ := dirLinks_eq_some.mp hlink
    have hne : i ≠ nextIno := by
      rintro rfl
      rw [hnew] at hget
      cases hget
    exact dirLinks_eq_some.mpr ⟨hi, (get_insert_ne m hne d).trans hget⟩
  constructor
  · refine h.insert h.first (Nat.le_succ _) (Nat.lt_succ_self _) ?_ ?_ ?_ ?_
    · exact fun i path hpath => ⟨path, hpath.mono hsub⟩
    · exact fun _ => ⟨path, hpath⟩
    · exact fun _ => hname
    · exact fun _ i d' _ hget hlinked => findChildByName_eq_none hfree hget hlinked
  · intro i hne location
    rw [h.located_iff (get_insert_ne m hne d) id id]
    · simp
    · exact fun d' path _ _ hpath => ⟨hpath.mono hsub, rfl⟩

lemma Tree.removeDirectory (h : Tree m nextIno) (hino : firstIno ≤ ino)
    (hleaf : ∀ i d, m.get i = some d → d.linked = true → d.parent ≠ ino) :
    Tree (m.erase ino) nextIno ∧ ∀ i, i ≠ ino → ∀ location,
      (Located (m.erase ino) i location ↔ Located m i location) := by
  refine ⟨h.erase hino hleaf, fun i hne location => ?_⟩
  have hkept : ∀ j, j ≠ ino → (m.erase ino).get j = m.get j := fun j hj => by
    rw [get_erase, if_neg hj]
  rw [h.located_iff (hkept i hne) id id]
  · simp
  · refine fun d path hget hlinked hpath => ⟨hpath.remove ?_ ?_ (hleaf i d hget hlinked), rfl⟩
    · intro j name hlink
      exact hleaf j _ (dirLinks_eq_some.mp hlink).2 rfl rfl
    · intro j hj
      rw [dirLinks, dirLinks, hkept j hj]

end Directories

/-! ### The inodes that are there from the start -/

def Reserved (m : FinMap ℕ InodeData) : Prop :=
  ∀ ino, ino < firstIno → m.get ino = InodeManager.new.inodes.get ino

section Reserved

variable {m : FinMap ℕ InodeData} {nextIno ino : ℕ}

lemma Reserved.firstIno_le_of_file (h : Reserved m) {parent : ℕ} {name : Str}
    {data : List UInt8} {unlinked : Bool}
    (hget : m.get ino = some (.file parent name data unlinked)) (hne : ino ≠ statsIno) :
    firstIno ≤ ino := by
  by_contra hlt
  rw [Nat.not_le] at hlt
  rw [h ino hlt] at hget
  unfold firstIno at hlt
  interval_cases ino <;> first | exact hne rfl | cases hget

lemma Reserved.not_isMetadataChild (h : Reserved m) (hino : ino < firstIno)
    (hne : ino ≠ metadataIno) : isMetadataChild m ino = false := by
  have hroot : ∀ fuel, metadataAbove m fuel rootIno = false := by
    rintro (_ | fuel)
    · rfl
    · exact if_pos (.inl rfl)
  have hget := h ino hino
  unfold isMetadataChild
  rw [metadataAbove]
  unfold firstIno at hino
  interval_cases ino
  · rfl
  · rfl
  · exact absurd rfl hne
  · rw [if_neg (by decide), hget]
    exact (Bool.false_or _).trans (hroot _)
  · rw [if_neg (by decide), hget]
    exact (Bool.false_or _).trans (hroot _)

lemma Tree.firstIno_le_of_child (h : Tree m nextIno) (hreserved : Reserved m) {d : InodeData}
    (hget : m.get ino = some d) (hchild : isMetadataChild m d.parent = true) : firstIno ≤ ino := by
  by_contra hlt
  have hparent := h.reserved ino d (Nat.not_le.mp hlt) hget
  have hroot : rootIno < metadataIno ∧ metadataIno < firstIno := by decide
  rw [hreserved.not_isMetadataChild (by omega) (by omega)] at hchild
  cases hchild

lemma Tree.exists_dirPath (h : Tree m nextIno) (hreserved : Reserved m)
    (hchild : isMetadataChild m ino = true) (hdir : (m.get ino).any InodeData.isFile = false) :
    ∃ path, DirPath m ino path := by
  by_cases hmeta : ino = metadataIno
  · exact ⟨[], hmeta ▸ .root⟩
  have hino : firstIno ≤ ino := by
    by_contra hlt
    rw [hreserved.not_isMetadataChild (Nat.not_le.mp hlt) hmeta] at hchild
    cases hchild
  cases hget : m.get ino with
  | none =>
    simp [isMetadataChild, hmeta, metadataAbove, hget] at hchild
  | some d =>
    cases d with
    | file parent name data unlinked =>
      rw [hget] at hdir
      cases hdir
    | directory parent name =>
      obtain ⟨path, hpath⟩ := h.placed ino _ hino hget rfl
      exact ⟨path ++ [name], .child (dirLinks_eq_some.mpr ⟨hino, hget⟩) hpath⟩

end Reserved

/-! ### The move of a directory -/

/-- The names down to a directory after the directory with the names `old` has got the names
`new`. -/
def movedNames (old new path : List Str) : List Str :=
  if old <+: path then new ++ path.drop old.length else path

lemma renamedPath_joined {old new path : List Str} (hold : SepFree '/' old)
    (hne : old ≠ []) (hne' : new ≠ []) (hpath : SepFree '/' path) :
    renamedPath (joined '/' old) (joined '/' new) (joined '/' path) =
      joined '/' (movedNames old new path) := by
  unfold renamedPath movedNames
  by_cases hbelow : old <+: path
  · obtain ⟨rest, rfl⟩ := hbelow
    rw [if_pos (prefix_append _ _), drop_left]
    by_cases hrest : rest = []
    · subst hrest
      rw [append_nil, append_nil, if_pos rfl]
    · have htext : joined '/' (old ++ rest) = joined '/' old ++ '/' :: joined '/' rest :=
        joined_append hne hrest
      rw [if_neg, if_pos, htext, drop_left, joined_append hne' hrest]
      · rw [ isPrefixOf_iff_prefix, htext]
        exact ⟨joined '/' rest, append_assoc _ _ _⟩
      · intro heq
        have hlen := congrArg List.length (htext.symm.trans heq)
        simp at hlen
  · rw [if_neg hbelow, if_neg, if_neg]
    · rw [ isPrefixOf_iff_prefix]
      rintro ⟨rest, hrest⟩
      rw [pathPrefix, append_assoc, singleton_append] at hrest
      obtain ⟨more, -, rfl, -⟩ := hold.exists_of_joined_append hpath hne hrest
      exact hbelow (prefix_append _ _)
    · intro heq
      exact hbelow (hpath.joined_inj hold heq ▸ prefix_rfl)

section MoveDirectory

variable {m : FinMap ℕ InodeData} {nextIno ino target : ℕ} {newName : Str}
  {pathD pathT : List Str} {files : Finset ℕ}

section

variable (h : Tree m nextIno) (hino : firstIno ≤ ino)
include h hino

lemma Tree.dirPath_moveDirectory (hd : DirPath m ino pathD) (ht : DirPath m target pathT)
    (houtside : ¬ pathD <+: pathT) {i : ℕ} {path : List Str} (hpath : DirPath m i path) :
    DirPath (m.insert ino (.directory target newName)) i
      (movedNames pathD (pathT ++ [newName]) path) := by
  have hkept : ∀ j, j ≠ ino → dirLinks (m.insert ino (.directory target newName)) j =
      dirLinks m j := by
    intro j hj
    rw [dirLinks, dirLinks, get_insert_ne m hj]
  have hmoved : dirLinks (m.insert ino (.directory target newName)) ino =
      some (target, newName) :=
    dirLinks_eq_some.mpr ⟨hino, get_insert_self m ino _⟩
  unfold movedNames
  by_cases hbelow : pathD <+: path
  · obtain ⟨rest, rfl⟩ := hbelow
    rw [if_pos (prefix_append _ _), drop_left, append_assoc,
      singleton_append]
    exact Spells.move h.distinctSiblings dirLinks_metadataIno hkept hmoved hd ht houtside hpath
  · rw [if_neg hbelow]
    exact Spells.move_of_not_isPrefix hkept hd dirLinks_metadataIno hpath hbelow

lemma Tree.moveDirectory (hlt : ino < nextIno) (hd : DirPath m ino pathD)
    (ht : DirPath m target pathT) (houtside : ¬ pathD <+: pathT)
    (hname : newName ≠ [] ∧ '/' ∉ newName) (hfree : findChildByName m target newName = none) :
    Tree (m.insert ino (.directory target newName)) nextIno := by
  refine h.insert hino le_rfl hlt ?_ ?_ ?_ ?_
  · exact fun i path hpath => ⟨_, h.dirPath_moveDirectory hino hd ht houtside hpath⟩
  · exact fun _ => ⟨pathT, ht⟩
  · exact fun _ => hname
  · exact fun _ i d _ hget hlinked => findChildByName_eq_none hfree hget hlinked

lemma locations_moveDirectory {p : ℕ} {n : Str} (hget : m.get ino = some (.directory p n))
    (hd : DirPath m ino pathD) (ht : DirPath m target pathT) (houtside : ¬ pathD <+: pathT) :
    locations (m.insert ino (.directory target newName)) files =
      (fun name => (renamedPath (joined '/' pathD) (joined '/' (pathT ++ [newName])) name.1,
        name.2)) '' locations m files := by
  have hne : pathD ≠ [] := by
    rintro rfl
    exact houtside nil_prefix
  have hlocated : ∀ i location, Located (m.insert ino (.directory target newName)) i location ↔
      ∃ before, Located m i before ∧ location =
        (renamedPath (joined '/' pathD) (joined '/' (pathT ++ [newName])) before.1, before.2) := by
    intro i location
    by_cases hi : i = ino
    · -- a directory is not a file, neither before nor after
      subst hi
      constructor
      · rintro ⟨-, _, _, _, _, hfile, -⟩
        rw [get_insert_self] at hfile
        cases hfile
      · rintro ⟨_, ⟨-, _, _, _, _, hfile, -⟩, -⟩
        rw [hget] at hfile
        cases hfile
    · refine h.located_iff (get_insert_ne m hi _) (movedNames pathD (pathT ++ [newName])) _
        fun d path _ _ hpath => ⟨h.dirPath_moveDirectory hino hd ht houtside hpath, ?_⟩
      exact renamedPath_joined (h.sepFree hd) hne (by simp) (h.sepFree hpath)
  ext location
  constructor
  · rintro ⟨i, hi, hafter⟩
    obtain ⟨before, hbefore, rfl⟩ := (hlocated i location).mp hafter
    exact ⟨before, ⟨i, hi, hbefore⟩, rfl⟩
  · rintro ⟨before, ⟨i, hi, hbefore⟩, rfl⟩
    exact ⟨i, hi, (hlocated i _).mpr ⟨before, hbefore, rfl⟩⟩

end

end MoveDirectory

end InodeManager

end TorrentFs.Fuse
