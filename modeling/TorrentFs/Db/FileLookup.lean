import TorrentFs.Db.Files
import TorrentFs.Lib.Forest
import TorrentFs.Lib.Joined
import TorrentFs.Lib.NameTree
import TorrentFs.Lib.PathTree

/-!
# The stored tree of a content

`insert_files_in_tx` turns the file list of a content into rows that refer to each other: a
directory to its parent, a file to its directory. The rows are a tree, and a directory or a file is
found in it by a name at a time.
-/

namespace TorrentFs.Db

open Text Sql Joined Forest NameTree PathTree

namespace FileTables

/-- `SELECT ... FROM torrent_files WHERE torrent_id = ? AND directory_id IS ? AND name = ?`. -/
def findFile (t : FileTables) (contentId : ℕ) (parent : Option ℕ) (name : Str) : Option FileRow :=
  t.files.rows.find? fun f =>
    f.torrentId == contentId && f.directoryId == parent && f.name == name

def links (t : FileTables) (contentId : ℕ) : Option ℕ → Option (Option ℕ × Str)
  | none => none
  | some id =>
    ((t.directories.get? id).filter fun d => d.torrentId = contentId).map fun d =>
      (d.parentId, d.name)

/-- `SELECT ... FROM torrent_files WHERE torrent_id = ? ORDER BY id`: a table is in the order of its
ids. -/
def getFiles (t : FileTables) (contentId : ℕ) : List FileRow :=
  t.files.rows.filter fun f => f.torrentId = contentId

def ParentLinks (t : FileTables) (contentId id : ℕ) (parent : Option ℕ) : Prop :=
  ∃ name, (⟨id, contentId, parent, name⟩ : TorrentDirectory) ∈ t.directories

/-- The rows of `directory_closure` for the directories of the content. -/
def ClosureRows (t : FileTables) (contentId a d n : ℕ) : Prop :=
  (∃ parent, t.ParentLinks contentId d parent) ∧ (⟨a, d, n⟩ : Closure) ∈ t.closure

/-- `FOREIGN KEY (descendant_id) REFERENCES torrent_directories(id)`. -/
def ClosureRefers (t : FileTables) : Prop :=
  ∀ c ∈ t.closure, ∃ d ∈ t.directories, d.id = c.descendantId

/-- The closure rows of a content are the closure of its parent links. -/
structure ClosureExact (t : FileTables) (contentId : ℕ) : Prop where
  refers : t.ClosureRefers
  rows_iff : ∀ a d n,
    t.ClosureRows contentId a d n ↔ AncestorAt (t.ParentLinks contentId) a d n

/-- A directory of the content, or the root, has the path. -/
abbrev DirAt (t : FileTables) (contentId : ℕ) (id : Option ℕ) (path : List Str) : Prop :=
  Spells (t.links contentId) none id path

variable {t t' : FileTables} {contentId : ℕ}

variable {id : ℕ} {parent : Option ℕ} {name : Str} {path : List Str}

lemma links_eq_some : t.links contentId (some id) = some (parent, name) ↔
      (⟨id, contentId, parent, name⟩ : TorrentDirectory) ∈ t.directories := by
  rw [links, Option.map_eq_some_iff]
  constructor
  · rintro ⟨d, hd, heq⟩
    obtain ⟨hget, hcontent⟩ := Option.filter_eq_some_iff.mp hd
    obtain ⟨hmem, rfl⟩ := AutoTable.get?_eq_some.mp hget
    cases heq
    rwa [← of_decide_eq_true hcontent]
  · intro hmem
    exact ⟨_, Option.filter_eq_some_iff.mpr
      ⟨AutoTable.get?_eq_some.mpr ⟨hmem, rfl⟩, decide_eq_true rfl⟩, rfl⟩

lemma findDirectory_eq_some (h : t.findDirectory contentId parent name = some id) :
    (⟨id, contentId, parent, name⟩ : TorrentDirectory) ∈ t.directories := by
  obtain ⟨d, hfind, rfl⟩ := Option.map_eq_some_iff.mp h
  have hd := List.find?_some hfind
  simp only [Bool.and_eq_true, beq_iff_eq] at hd
  obtain ⟨⟨rfl, rfl⟩, rfl⟩ := hd
  exact List.mem_of_find?_eq_some hfind

lemma findDirectory_eq_none : t.findDirectory contentId parent name = none ↔
      ∀ id, (⟨id, contentId, parent, name⟩ : TorrentDirectory) ∉ t.directories := by
  rw [findDirectory, Option.map_eq_none_iff, List.find?_eq_none]
  constructor
  · intro h id hmem
    exact h _ hmem (by simp)
  · intro h d hd hcond
    simp only [Bool.and_eq_true, beq_iff_eq] at hcond
    obtain ⟨⟨rfl, rfl⟩, rfl⟩ := hcond
    exact h d.id hd

lemma findFile_eq_find? (parent : Option ℕ) (name : Str) : t.findFile contentId parent name =
      (t.getFiles contentId).find? fun f => f.directoryId == parent && f.name == name := by
  rw [findFile, getFiles, List.find?_filter]
  congr 1
  funext f
  rw [Bool.eq_iff_iff]
  simp only [Bool.and_eq_true, beq_iff_eq, decide_eq_true_eq, and_assoc]

lemma insertDirectory_eq_ok (h : t.insertDirectory contentId parent name = .ok (t', id)) :
    (∀ d, d ∈ t'.directories ↔ d ∈ t.directories ∨ d = ⟨id, contentId, parent, name⟩) ∧
      (∀ d ∈ t.directories, d.id ≠ id) ∧ t'.files = t.files ∧
      ∀ a d n, (⟨a, d, n⟩ : Closure) ∈ t'.closure ↔ ⟨a, d, n⟩ ∈ t.closure ∨
        d = id ∧ (n = 0 ∧ a = id ∨ ∃ p m, parent = some p ∧ n = m + 1 ∧
          ⟨a, p, m⟩ ∈ t.closure ++ [⟨id, id, 0⟩]) := by
  unfold insertDirectory at h
  split at h
  · cases h
  · next hinsert =>
    cases h
    obtain ⟨hmem, hfresh⟩ := AutoTable.insert_eq_ok hinsert
    refine ⟨hmem, hfresh, rfl, fun a d n => ?_⟩
    cases parent with
    | none =>
      simp only [List.mem_append, List.mem_singleton, Closure.mk.injEq, reduceCtorEq, false_and,
        exists_false, or_false]
      tauto
    | some p =>
      dsimp only
      rw [List.mem_append, List.mem_append, or_assoc, List.mem_singleton, Closure.mk.injEq,
        List.mem_map]
      refine or_congr_right ⟨?_, ?_⟩
      · rintro (⟨ha, hd, hn⟩ | ⟨⟨a', p', m⟩, hc, heq⟩)
        · exact ⟨hd, .inl ⟨hn, ha⟩⟩
        · obtain ⟨hc, hp⟩ := List.mem_filter.mp hc
          cases heq
          exact ⟨rfl, .inr ⟨p', m, congrArg some (beq_iff_eq.mp hp).symm, rfl, hc⟩⟩
      · rintro ⟨rfl, ⟨hn, ha⟩ | ⟨p', m, hp, rfl, hc⟩⟩
        · exact .inl ⟨ha, rfl, hn⟩
        · cases hp
          exact .inr ⟨_, List.mem_filter.mpr ⟨hc, beq_self_eq_true _⟩, rfl⟩

/-- A row of `torrent_files` is the file of the list. -/
def StoresFile (t : FileTables) (contentId : ℕ) (row : FileRow) (f : List Str × ℤ) : Prop :=
  ∃ dir, f.1 = dir ++ [row.name] ∧ row.size = f.2 ∧ t.DirAt contentId row.directoryId dir

/-- The rows of a content: the directories with the paths `dirs`, and the files in the order of
the list. -/
structure Stored (t : FileTables) (contentId : ℕ) (dirs : Set (List Str))
    (files : List (List Str × ℤ)) : Prop where
  siblings : DistinctSiblings (t.links contentId)
  reachable : ∀ id link, t.links contentId id = some link → ∃ path, t.DirAt contentId id path
  directories : ∀ path, path ∈ dirs ↔ ∃ id, t.DirAt contentId id path
  files : List.Forall₂ (t.StoresFile contentId) (t.getFiles contentId) files

/-- The entries of `dir_cache`. -/
def CacheOk (t : FileTables) (contentId : ℕ) (dirCache : FinMap Str ℕ) : Prop :=
  ∀ text id, dirCache.get text = some id → t.DirAt contentId (some id) (pathParts text)

variable {dirs : Set (List Str)} {files : List (List Str × ℤ)} {dirCache : FinMap Str ℕ}

/-! ### What the queries find -/

section

variable (h : t.Stored contentId dirs files) (hparent : t.DirAt contentId parent path)
include h hparent

lemma Stored.findDirectory_eq_some_iff : t.findDirectory contentId parent name = some id ↔
      t.DirAt contentId (some id) (path ++ [name]) := by
  constructor
  · intro hfind
    exact .child (links_eq_some.mpr (findDirectory_eq_some hfind)) hparent
  · intro hat
    cases hfind : t.findDirectory contentId parent name with
    | none =>
      -- the parent of the directory with this path is the one that was searched
      generalize hpath : path ++ [name] = path' at hat
      cases hat with
      | @child _ parent' name' path' hlink hparent' =>
        obtain ⟨rfl, hname⟩ := List.append_inj' hpath rfl
        obtain rfl : name = name' := by simpa using hname
        obtain rfl := hparent.eq_of_path h.siblings hparent'
        exact absurd (links_eq_some.mp hlink) (findDirectory_eq_none.mp hfind id)
    | some id' =>
      have hat' : t.DirAt contentId (some id') (path ++ [name]) :=
        .child (links_eq_some.mpr (findDirectory_eq_some hfind)) hparent
      exact hat'.eq_of_path h.siblings hat

lemma Stored.findDirectory_isSome_iff :
    (t.findDirectory contentId parent name).isSome = true ↔ path ++ [name] ∈ dirs := by
  rw [h.directories, Option.isSome_iff_exists]
  constructor
  · rintro ⟨id, hid⟩
    exact ⟨some id, (h.findDirectory_eq_some_iff hparent).mp hid⟩
  · rintro ⟨id, hid⟩
    cases id with
    | none => exact absurd (Spells.path_unique rfl hid .root) (by simp)
    | some id => exact ⟨id, (h.findDirectory_eq_some_iff hparent).mpr hid⟩

lemma Stored.storesFile_at {row : FileRow} {f : List Str × ℤ}
    (hrow : t.StoresFile contentId row f) :
    (row.directoryId == parent && row.name == name) = decide (f.1 = path ++ [name]) := by
  obtain ⟨dir, hpath, -, hdir⟩ := hrow
  rw [Bool.eq_iff_iff, Bool.and_eq_true, beq_iff_eq, beq_iff_eq, decide_eq_true_eq, hpath]
  constructor
  · rintro ⟨rfl, rfl⟩
    rw [Spells.path_unique rfl hdir hparent]
  · intro heq
    obtain ⟨rfl, hname⟩ := List.append_inj' heq rfl
    exact ⟨hdir.eq_of_path h.siblings hparent, by simpa using hname⟩

lemma Stored.findFile_rel (name : Str) :
    Option.Rel (t.StoresFile contentId) (t.findFile contentId parent name)
      (files.find? fun f => f.1 = path ++ [name]) := by
  rw [findFile_eq_find?]
  exact rel_find? h.files fun _ _ => h.storesFile_at hparent

lemma Stored.findFile_eq_getElem? (name : Str) : t.findFile contentId parent name =
      (t.getFiles contentId)[files.findIdx fun f => f.1 = path ++ [name]]? := by
  rw [findFile_eq_find?]
  exact find?_eq_getElem?_findIdx h.files fun _ _ => h.storesFile_at hparent

end

/-! ### The insertion -/

lemma StoresFile.mono (hmono : ∀ id path, t.DirAt contentId id path → t'.DirAt contentId id path)
    {row : FileRow} {f : List Str × ℤ} (h : t.StoresFile contentId row f) :
    t'.StoresFile contentId row f := by
  obtain ⟨dir, hpath, hsize, hdir⟩ := h
  exact ⟨dir, hpath, hsize, hmono _ _ hdir⟩

lemma CacheOk.mono (hmono : ∀ id path, t.DirAt contentId id path → t'.DirAt contentId id path)
    (h : t.CacheOk contentId dirCache) : t'.CacheOk contentId dirCache :=
  fun text id hget => hmono _ _ (h text id hget)

lemma CacheOk.insert (h : t.CacheOk contentId dirCache) {text : Str}
    (hat : t.DirAt contentId (some id) (pathParts text)) :
    t.CacheOk contentId (dirCache.insert text id) := by
  intro text' id' hget
  rw [FinMap.get_insert] at hget
  split at hget
  · next htext =>
    cases hget
    rwa [htext]
  · exact h text' id' hget

lemma parentLinks_of_dirAt (h : t.DirAt contentId (some id) path) :
    ∃ parent, t.ParentLinks contentId id parent := by
  cases h with
  | child hlink _ => exact ⟨_, _, links_eq_some.mp hlink⟩

lemma Stored.closed (h : t.Stored contentId dirs files) : Closed (t.ParentLinks contentId) := by
  rintro d p ⟨name, hmem⟩
  have hlink := links_eq_some.mpr hmem
  obtain ⟨path, hat⟩ := h.reachable _ _ hlink
  cases hat with
  | child hlink' hparent =>
    obtain ⟨rfl, rfl⟩ := Prod.mk.inj (Option.some.inj (hlink.symm.trans hlink'))
    exact parentLinks_of_dirAt hparent

lemma ClosureExact.insertDirectory (h : t.ClosureExact contentId)
    (hclosed : Closed (t.ParentLinks contentId)) (hparent : t.DirAt contentId parent path)
    (hinsert : t.insertDirectory contentId parent name = .ok (t', id)) :
    t'.ClosureExact contentId := by
  obtain ⟨hmem, hfresh, -, hclosure⟩ := insertDirectory_eq_ok hinsert
  have hunlinked : ∀ q, ¬ t.ParentLinks contentId id q := fun q ⟨_, hrow⟩ => hfresh _ hrow rfl
  have hlinks : ∀ d q, t'.ParentLinks contentId d q ↔
      t.ParentLinks contentId d q ∨ (d = id ∧ q = parent) := by
    simp [ParentLinks, hmem, exists_or]
  have hup : ∀ p, parent = some p → ∃ q, t.ParentLinks contentId p q := by
    rintro p rfl
    exact parentLinks_of_dirAt hparent
  have hold : ∀ a n, (⟨a, id, n⟩ : Closure) ∉ t.closure := by
    intro a n hrow
    obtain ⟨d, hd, heq⟩ := h.refers _ hrow
    exact hfresh d hd heq
  refine ⟨fun ⟨a, d, n⟩ hrow => ?_, fun a d n => ?_⟩
  · rcases (hclosure a d n).mp hrow with hrow | ⟨rfl, -⟩
    · obtain ⟨r, hr, heq⟩ := h.refers _ hrow
      exact ⟨r, (hmem r).mpr (.inl hr), heq⟩
    · exact ⟨_, (hmem _).mpr (.inr rfl), rfl⟩
  · refine closure_insert hclosed hunlinked hup hlinks h.rows_iff fun a d n => ?_
    unfold ClosureRows
    rw [hclosure]
    constructor
    · rintro ⟨⟨q, hq⟩, hrow | ⟨rfl, ⟨hn, ha⟩ | ⟨p, m, hp, hn, hrow⟩⟩⟩
      · rcases (hlinks d q).mp hq with hq | ⟨rfl, -⟩
        · exact .inl ⟨⟨q, hq⟩, hrow⟩
        · exact absurd hrow (hold a n)
      · exact .inr ⟨rfl, .inl ⟨hn, ha⟩⟩
      · obtain ⟨q', hq'⟩ := hup p hp
        rcases List.mem_append.mp hrow with hrow | hrow
        · exact .inr ⟨rfl, .inr ⟨p, m, hp, hn, ⟨q', hq'⟩, hrow⟩⟩
        · cases List.mem_singleton.mp hrow
          exact absurd hq' (hunlinked q')
    · rintro (⟨⟨q, hq⟩, hrow⟩ | ⟨rfl, hrow⟩)
      · exact ⟨⟨q, (hlinks d q).mpr (.inl hq)⟩, .inl hrow⟩
      · refine ⟨⟨parent, (hlinks d parent).mpr (.inr ⟨rfl, rfl⟩)⟩, .inr ⟨rfl, hrow.imp_right ?_⟩⟩
        rintro ⟨p, m, hp, hn, -, hrow⟩
        exact ⟨p, m, hp, hn, List.mem_append_left _ hrow⟩

lemma Stored.insertDirectory (h : t.Stored contentId dirs files)
    (hparent : t.DirAt contentId parent path) (hnone : t.findDirectory contentId parent name = none)
    (hinsert : t.insertDirectory contentId parent name = .ok (t', id)) :
    t'.Stored contentId (insert (path ++ [name]) dirs) files ∧
      t'.DirAt contentId (some id) (path ++ [name]) ∧
      ∀ id path, t.DirAt contentId id path → t'.DirAt contentId id path := by
  obtain ⟨hmem, hfresh, hfiles, -⟩ := insertDirectory_eq_ok hinsert
  have hnew : t.links contentId (some id) = none := by
    by_contra hsome
    obtain ⟨⟨p, n⟩, hlink⟩ := Option.ne_none_iff_exists'.mp hsome
    exact hfresh _ (links_eq_some.mp hlink) rfl
  have hadded : t'.links contentId (some id) = some (parent, name) :=
    links_eq_some.mpr ((hmem _).mpr (.inr rfl))
  have hkept : ∀ i, i ≠ some id → t'.links contentId i = t.links contentId i := by
    intro i hi
    cases i with
    | none => rfl
    | some i =>
      ext ⟨p, n⟩
      rw [links_eq_some, links_eq_some, hmem]
      refine or_iff_left fun heq => hi ?_
      exact congrArg some (congrArg TorrentDirectory.id heq)
  have hleaf : ∀ i n, t.links contentId i ≠ some (some id, n) := by
    intro i n hlink
    cases i with
    | none => cases hlink
    | some i =>
      obtain ⟨q, _, hrow⟩ := h.closed i id ⟨n, links_eq_some.mp hlink⟩
      exact hfresh _ hrow rfl
  have hadd : ∀ i p, t'.DirAt contentId i p ↔
      t.DirAt contentId i p ∨ i = some id ∧ p = path ++ [name] := fun i p =>
    Spells.add_iff rfl (by simp) hnew hleaf hkept hadded hparent
  have hmono : ∀ i p, t.DirAt contentId i p → t'.DirAt contentId i p := fun i p hp =>
    (hadd i p).mpr (.inl hp)
  refine ⟨⟨?_, ?_, ?_, ?_⟩, (hadd _ _).mpr (.inr ⟨rfl, rfl⟩), hmono⟩
  · -- no directory had this parent and this name
    have hfirst : ∀ i, t.links contentId i ≠ some (parent, name) := by
      intro i hlink
      cases i with
      | none => cases hlink
      | some i => exact findDirectory_eq_none.mp hnone i (links_eq_some.mp hlink)
    intro i j link hi hj
    by_cases hid : i = some id <;> by_cases hjd : j = some id
    · rw [hid, hjd]
    · rw [hid, hadded] at hi
      rw [hkept j hjd, ← hi] at hj
      exact absurd hj (hfirst j)
    · rw [hjd, hadded] at hj
      rw [hkept i hid, ← hj] at hi
      exact absurd hi (hfirst i)
    · rw [hkept i hid] at hi
      rw [hkept j hjd] at hj
      exact h.siblings i j link hi hj
  · intro i link hlink
    by_cases hid : i = some id
    · exact ⟨_, (hadd i _).mpr (.inr ⟨hid, rfl⟩)⟩
    · rw [hkept i hid] at hlink
      obtain ⟨p, hp⟩ := h.reachable i link hlink
      exact ⟨p, hmono i p hp⟩
  · intro p
    rw [Set.mem_insert_iff, h.directories]
    simp only [hadd]
    constructor
    · rintro (rfl | ⟨i, hi⟩)
      · exact ⟨some id, .inr ⟨rfl, rfl⟩⟩
      · exact ⟨i, .inl hi⟩
    · rintro ⟨i, hi | ⟨-, rfl⟩⟩
      · exact .inr ⟨i, hi⟩
      · exact .inl rfl
  · rw [getFiles, hfiles]
    exact h.files.imp fun row f hrow => hrow.mono hmono

lemma Stored.enterDirectory (h : t.Stored contentId dirs files)
    (hcache : t.CacheOk contentId dirCache) (hparent : t.DirAt contentId parent path) {part : Str}
    (hparts : pathParts (joinParts (path ++ [part])) = path ++ [part]) {dirCache' : FinMap Str ℕ}
    (henter : enterDirectory contentId t dirCache parent (joinParts (path ++ [part])) part =
      .ok (t', dirCache', id)) :
    t'.Stored contentId (insert (path ++ [part]) dirs) files ∧ t'.CacheOk contentId dirCache' ∧
      t'.DirAt contentId (some id) (path ++ [part]) ∧
      (t.ClosureExact contentId → t'.ClosureExact contentId) := by
  -- a directory that is already there is one of `dirs`
  have hthere :
      t.DirAt contentId (some id) (path ++ [part]) → insert (path ++ [part]) dirs = dirs :=
    fun hat => Set.insert_eq_of_mem ((h.directories _).mpr ⟨_, hat⟩)
  unfold FileTables.enterDirectory at henter
  cases hget : dirCache.get (joinParts (path ++ [part])) with
  | some cached =>
    rw [hget] at henter
    cases henter
    have hat := hcache _ _ hget
    rw [hparts] at hat
    rw [hthere hat]
    exact ⟨h, hcache, hat, fun hexact => hexact⟩
  | none =>
    rw [hget] at henter
    cases hfind : t.findDirectory contentId parent part with
    | some found =>
      rw [hfind] at henter
      cases henter
      have hat := (h.findDirectory_eq_some_iff hparent).mp hfind
      rw [hthere hat]
      exact ⟨h, hcache.insert (by rwa [hparts]), hat, fun hexact => hexact⟩
    | none =>
      rw [hfind] at henter
      dsimp only at henter
      split at henter
      · cases henter
      · next hinsert =>
        cases henter
        obtain ⟨hstored, hat, hmono⟩ := h.insertDirectory hparent hfind hinsert
        exact ⟨hstored, (hcache.mono hmono).insert (by rwa [hparts]), hat, fun hexact =>
          hexact.insertDirectory h.closed hparent hinsert⟩

lemma Stored.insertFile (h : t.Stored contentId dirs files)
    (hparent : t.DirAt contentId parent path) {text : Str} {size : ℤ}
    {table : AutoTable FileRow FileRow.id}
    (hinsert : t.files.insert (fun id => ⟨id, contentId, parent, name, text, size⟩)
      (fun _ => rfl) = .ok (table, id)) :
    ({ t with files := table } : FileTables).Stored contentId dirs
      (files ++ [(path ++ [name], size)]) := by
  refine ⟨h.siblings, h.reachable, h.directories, ?_⟩
  rw [getFiles, AutoTable.rows_of_insert hinsert, List.filter_append]
  refine List.rel_append h.files ?_
  rw [List.filter_cons_of_pos (by simp), List.filter_nil]
  exact .cons ⟨path, rfl, rfl, hparent⟩ .nil

/-- The beginnings of `done ++ rest` that are not the whole and do not end before `done`. -/
def innerPaths (done rest : List Str) : Set (List Str) :=
  {path | done <+: path ∧ path <+: done ++ rest ∧ path ≠ done ++ rest}

lemma innerPaths_singleton (done : List Str) (name : Str) : innerPaths done [name] = {done} := by
  ext path
  constructor
  · rintro ⟨⟨more, rfl⟩, hsub, hne⟩
    rw [List.prefix_append_right_inj, List.prefix_cons_iff] at hsub
    rcases hsub with rfl | ⟨more', rfl, hsub⟩
    · exact List.append_nil done
    · rw [List.prefix_nil.mp hsub] at hne
      exact absurd rfl hne
  · rintro rfl
    exact ⟨List.prefix_rfl, List.prefix_append _ _, by simp⟩

lemma innerPaths_cons_cons (done : List Str) (part next : Str) (rest : List Str) :
    innerPaths done (part :: next :: rest) =
      insert done (innerPaths (done ++ [part]) (next :: rest)) := by
  ext path
  rw [Set.mem_insert_iff]
  unfold innerPaths
  rw [Set.mem_ofPred_eq, Set.mem_ofPred_eq, List.append_assoc, List.singleton_append]
  constructor
  · rintro ⟨⟨more, rfl⟩, hsub, hne⟩
    have hmore := hsub
    rw [List.prefix_append_right_inj, List.prefix_cons_iff] at hmore
    rcases hmore with rfl | ⟨more', rfl, -⟩
    · exact .inl (List.append_nil done)
    · exact .inr ⟨⟨more', by simp⟩, hsub, hne⟩
  · rintro (rfl | ⟨hsub, hsub', hne⟩)
    · exact ⟨List.prefix_rfl, List.prefix_append _ _, by simp⟩
    · exact ⟨(List.prefix_append _ _).trans hsub, hsub', hne⟩

lemma Stored.insertParts (entry : FileEntry) {rest : List Str} :
    ∀ {done : List Str} {parent : Option ℕ} {t : FileTables} {dirs : Set (List Str)}
      {dirCache dirCache' : FinMap Str ℕ}, t.Stored contentId dirs files →
      t.CacheOk contentId dirCache → t.DirAt contentId parent done → rest ≠ [] →
      (∀ part ∈ done ++ rest, '/' ∉ part) →
      insertParts contentId entry done rest parent t dirCache = .ok (t', dirCache') →
      t'.Stored contentId (dirs ∪ innerPaths done rest) (files ++ [(done ++ rest, entry.size)]) ∧
        t'.CacheOk contentId dirCache' ∧
        (t.ClosureExact contentId → t'.ClosureExact contentId) := by
  induction rest with
  | nil => exact fun _ _ _ hne => absurd rfl hne
  | cons part rest ih =>
    intro done parent t dirs dirCache dirCache' h hcache hparent _ hfree hinsert
    have hdone : done ∈ dirs := (h.directories _).mpr ⟨_, hparent⟩
    cases rest with
    | nil =>
      rw [FileTables.insertParts] at hinsert
      split at hinsert
      · cases hinsert
      · next hrow =>
        cases hinsert
        rw [innerPaths_singleton, Set.union_singleton, Set.insert_eq_of_mem hdone]
        exact ⟨h.insertFile hparent hrow, hcache, fun hexact => ⟨hexact.refers, hexact.rows_iff⟩⟩
    | cons next rest =>
      rw [FileTables.insertParts] at hinsert
      · split at hinsert
        · cases hinsert
        · next henter =>
          rw [← List.singleton_append, ← List.append_assoc] at hfree
          have hparts : pathParts (joinParts (done ++ [part])) = done ++ [part] :=
            List.splitOn_intercalate '/' (fun p hp => hfree p (List.mem_append_left _ hp))
              (by simp)
          obtain ⟨h', hcache', hat, hexact⟩ := h.enterDirectory hcache hparent hparts henter
          obtain ⟨hrest, hcache'', hexact'⟩ :=
            ih h' hcache' hat (List.cons_ne_nil _ _) hfree hinsert
          have hdirs : insert (done ++ [part]) dirs ∪
              innerPaths (done ++ [part]) (next :: rest) =
              dirs ∪ innerPaths done (part :: next :: rest) := by
            rw [innerPaths_cons_cons, Set.union_insert, ← Set.insert_union,
              Set.insert_eq_of_mem hdone, Set.insert_union, ← Set.union_insert,
              Set.insert_eq_of_mem (a := done ++ [part])]
            exact ⟨List.prefix_rfl, List.prefix_append _ _, by simp⟩
          rw [hdirs, List.append_assoc] at hrest
          exact ⟨hrest, hcache'', hexact' ∘ hexact⟩
      · simp

def directoryPaths (files : List (List Str × ℤ)) : Set (List Str) :=
  {path | path = [] ∨ Below files path}

lemma directoryPaths_append_singleton (files : List (List Str × ℤ)) (f : List Str × ℤ) :
    directoryPaths (files ++ [f]) = directoryPaths files ∪ innerPaths [] f.1 := by
  ext path
  unfold directoryPaths innerPaths Below
  simp only [Set.mem_ofPred_eq, Set.mem_union, List.mem_append, List.mem_singleton, or_and_right,
    exists_or, exists_eq_left, List.nil_prefix, true_and, List.nil_append, or_assoc]

/-- An entry of the file list, with the parts of its path. -/
structure Lists (entry : FileEntry) (f : List Str × ℤ) : Prop where
  path : entry.path = joined '/' f.1
  size : entry.size = f.2
  nonempty : f.1 ≠ []
  sepFree : SepFree '/' f.1

lemma Lists.pathParts_eq {entry : FileEntry} {f : List Str × ℤ} (h : Lists entry f) :
    pathParts entry.path = f.1 := by
  rw [h.path]
  exact List.splitOn_intercalate '/' (fun part hpart => (h.sepFree part hpart).2) h.nonempty

def listedFiles (entries : List FileEntry) : List (List Str × ℤ) :=
  entries.map fun e => (pathParts e.path, e.size)

lemma listedFiles_eq {entries : List FileEntry} (h : List.Forall₂ Lists entries files) :
    listedFiles entries = files := by
  induction h with
  | nil => rfl
  | cons hentry _ ih => exact congrArg₂ _ (Prod.ext hentry.pathParts_eq hentry.size) ih

lemma Stored.insertFilesLoop {entries : List FileEntry} :
    ∀ {t : FileTables} {files : List (List Str × ℤ)} {dirCache : FinMap Str ℕ},
      t.Stored contentId (directoryPaths files) files → t.CacheOk contentId dirCache →
      insertFilesLoop contentId entries t dirCache = .ok t' →
      t'.Stored contentId (directoryPaths (files ++ listedFiles entries))
          (files ++ listedFiles entries) ∧
        (t.ClosureExact contentId → t'.ClosureExact contentId) := by
  induction entries with
  | nil =>
    intro t files dirCache h _ hinsert
    cases hinsert
    rw [listedFiles, List.map_nil, List.append_nil]
    exact ⟨h, id⟩
  | cons entry entries ih =>
    intro t files dirCache h hcache hinsert
    rw [FileTables.insertFilesLoop] at hinsert
    split at hinsert
    · cases hinsert
    · next hparts =>
      obtain ⟨h', hcache', hexact⟩ := h.insertParts entry hcache .root
        (List.splitOn_ne_nil _ _) (fun part => notMem_of_mem_splitOn) hparts
      rw [List.nil_append, ← directoryPaths_append_singleton files (_, entry.size)] at h'
      obtain ⟨hrest, hexact'⟩ := ih h' hcache' hinsert
      rw [List.append_assoc, List.singleton_append] at hrest
      exact ⟨hrest, hexact' ∘ hexact⟩

/-- No row belongs to the content, as is so for a content that is just being inserted. -/
structure NoRows (t : FileTables) (contentId : ℕ) : Prop where
  directories : ∀ d ∈ t.directories, d.torrentId ≠ contentId
  files : ∀ f ∈ t.files, f.torrentId ≠ contentId

lemma NoRows.stored (h : t.NoRows contentId) : t.Stored contentId (directoryPaths []) [] := by
  have hlinks : ∀ id link, t.links contentId id ≠ some link := by
    intro id link hlink
    cases id with
    | none => cases hlink
    | some id => exact h.directories _ (links_eq_some.mp hlink) rfl
  refine ⟨fun i _ link hi => absurd hi (hlinks i link), fun id link hlink =>
    absurd hlink (hlinks id link), fun path => ?_, ?_⟩
  · constructor
    · rintro (rfl | ⟨f, hf, -⟩)
      · exact ⟨none, .root⟩
      · exact absurd hf List.not_mem_nil
    · rintro ⟨id, hid⟩
      cases hid with
      | root => exact .inl rfl
      | child hlink _ => exact absurd hlink (hlinks id _)
  · rw [getFiles, List.filter_eq_nil_iff.mpr]
    · exact .nil
    · intro f hf
      simpa using h.files f hf

lemma NoRows.closureExact (h : t.NoRows contentId) (hrefers : t.ClosureRefers) :
    t.ClosureExact contentId := by
  have hnone : ∀ id parent, ¬ t.ParentLinks contentId id parent := fun id parent ⟨_, hrow⟩ =>
    h.directories _ hrow rfl
  refine ⟨hrefers, fun a d n => iff_of_false ?_ ?_⟩
  · rintro ⟨⟨parent, hlink⟩, -⟩
    exact hnone d parent hlink
  · intro hat
    obtain ⟨parent, hlink⟩ := hat.descendant
    exact hnone d parent hlink

lemma NoRows.insertFilesInTx {entries : List FileEntry} (h : t.NoRows contentId)
    (hinsert : t.insertFilesInTx contentId entries = .ok t') :
    t'.Stored contentId (directoryPaths (listedFiles entries)) (listedFiles entries) ∧
      (t.ClosureExact contentId → t'.ClosureExact contentId) :=
  h.stored.insertFilesLoop (fun _ _ hget => by cases hget) hinsert

lemma stored_insertFilesInTx {entries : List FileEntry} (h : t.NoRows contentId)
    (hlists : List.Forall₂ Lists entries files)
    (hinsert : t.insertFilesInTx contentId entries = .ok t') :
    t'.Stored contentId (directoryPaths files) files :=
  listedFiles_eq hlists ▸ (h.insertFilesInTx hinsert).1

end FileTables

end TorrentFs.Db
