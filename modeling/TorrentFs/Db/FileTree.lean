import TorrentFs.Db.FileLookup

/-!
# The file list in the tables

A file list is put into the tables and read back: by the position of a file in the list, which is
the number the engine knows the file by, and by its path, a directory at a time.
-/

namespace TorrentFs.Db

open Text Sql Forest NameTree List

namespace FileTables

/-- The loop of `resolve_directory_path`. A part that is not there ends it with `None`. -/
def resolveParts (t : FileTables) (contentId : ℕ) : Option ℕ → List Str → Option ℕ
  | currentParent, [] => currentParent
  | currentParent, part :: parts =>
    match t.findDirectory contentId currentParent part with
    | some id => resolveParts t contentId (some id) parts
    | none => none

def resolveDirectoryPath (t : FileTables) (contentId : ℕ) (parts : List Str) : Option ℕ :=
  t.resolveParts contentId none parts

/-- `get_file_by_path`, from the content of the source on. -/
def getFileByPath (t : FileTables) (contentId : ℕ) (path : Str) : Option FileRow :=
  let parts := pathParts path
  match parts.getLast? with
  | none => none
  | some fileName =>
    if parts.dropLast = [] then
      t.findFile contentId none fileName
    else
      match t.resolveDirectoryPath contentId parts.dropLast with
      | some did => t.findFile contentId (some did) fileName
      | none => none

variable {t t' : FileTables} {contentId id : ℕ} {dirs : Set (List Str)}
  {files : List (List Str × ℤ)}

lemma Stored.resolveParts_eq_some_iff (h : t.Stored contentId dirs files) {parts path : List Str}
    {current : Option ℕ} (hat : t.DirAt contentId current path) :
    t.resolveParts contentId current parts = some id ↔
      t.DirAt contentId (some id) (path ++ parts) := by
  induction parts generalizing current path with
  | nil =>
    rw [resolveParts, append_nil]
    constructor
    · rintro rfl
      exact hat
    · exact hat.eq_of_path h.siblings
  | cons part parts ih =>
    rw [resolveParts, append_cons]
    cases hfind : t.findDirectory contentId current part with
    | some next => exact ih ((h.findDirectory_eq_some_iff hat).mp hfind)
    | none =>
      refine iff_of_false (by simp) fun hbelow => ?_
      -- the way to a directory goes through the missing one
      obtain ⟨j, hj⟩ := hbelow.of_append
      have hdir := (h.findDirectory_isSome_iff hat).mpr ((h.directories _).mpr ⟨j, hj⟩)
      rw [hfind] at hdir
      cases hdir

lemma pathParts_injective : Function.Injective pathParts :=
  Function.LeftInverse.injective fun _ => intercalate_splitOn '/'

lemma Stored.getFileByPath_eq (h : t.Stored contentId dirs files) (path : Str) :
    t.getFileByPath contentId path =
      (t.getFiles contentId)[files.findIdx fun f => f.1 = pathParts path]? := by
  have hne : pathParts path ≠ [] := splitOn_ne_nil _ _
  have hparts := dropLast_append_getLast hne
  unfold getFileByPath
  dsimp only
  rw [getLast?_eq_some_getLast hne]
  generalize (pathParts path).getLast hne = fileName at hparts ⊢
  dsimp only
  split
  · next hdir =>
    rw [hdir] at hparts
    rw [← hparts]
    exact h.findFile_eq_getElem? .root fileName
  · next hdir =>
    cases hresolve : t.resolveDirectoryPath contentId (pathParts path).dropLast with
    | some did =>
      rw [← hparts]
      exact h.findFile_eq_getElem? ((h.resolveParts_eq_some_iff .root).mp hresolve) fileName
    | none =>
      -- a row at the position would have a directory, and that would be found
      cases hget : (t.getFiles contentId)[files.findIdx fun f => f.1 = pathParts path]? with
      | none => rfl
      | some row =>
        obtain ⟨hlt, rfl⟩ := List.getElem?_eq_some_iff.mp hget
        have hlt' := h.files.length_eq ▸ hlt
        obtain ⟨dir, hrow, -, hat⟩ := h.files.get hlt hlt'
        have hpath := of_decide_eq_true (findIdx_getElem (w := hlt'))
        obtain ⟨rfl, -⟩ := append_inj' (hrow.symm.trans (hpath.trans hparts.symm)) rfl
        cases hid : ((t.getFiles contentId).get ⟨_, hlt⟩).directoryId with
        | none =>
          rw [hid] at hat
          exact absurd (Spells.path_unique rfl hat .root) hdir
        | some did =>
          rw [hid] at hat
          exact absurd (hresolve.symm.trans ((h.resolveParts_eq_some_iff .root).mpr hat)) nofun

/-- The rows of a file list: the directories of each file spell its path, in the order of the list;
no two directories of one parent have a name in common; the closure table has the ancestors of each
directory with their distances; and a path finds the row at the position of the first file with the
path. -/
theorem insertFilesInTx_tree {entries : List FileEntry} (hrows : t.NoRows contentId)
    (hrefers : t.ClosureRefers) (hinsert : t.insertFilesInTx contentId entries = .ok t') :
    List.Forall₂ (fun row e => t'.StoresFile contentId row (pathParts e.path, e.size))
        (t'.getFiles contentId) entries ∧ DistinctSiblings (t'.links contentId) ∧
      (∀ a d n, t'.ClosureRows contentId a d n ↔ AncestorAt (t'.ParentLinks contentId) a d n) ∧
      ∀ path, t'.getFileByPath contentId path =
        (t'.getFiles contentId)[entries.findIdx fun e => e.path = path]? := by
  obtain ⟨hstored, hexact⟩ := hrows.insertFilesInTx hinsert
  refine ⟨List.forall₂_map_right_iff.mp hstored.files, hstored.siblings,
    (hexact (hrows.closureExact hrefers)).rows_iff, fun path => ?_⟩
  rw [hstored.getFileByPath_eq, listedFiles, List.findIdx_map]
  congr 2
  funext e
  exact decide_eq_decide.mpr pathParts_injective.eq_iff

theorem two_files_of_one_directory :
    ∃ t', empty.insertFilesInTx 1 [⟨['a', '/', 'b'], 1⟩, ⟨['a', '/', 'c'], 2⟩] = .ok t' ∧
      t'.getFileByPath 1 ['a', '/', 'c'] = (t'.getFiles 1)[1]? := by
  obtain ⟨t', hinsert⟩ : ∃ t', empty.insertFilesInTx 1
      [⟨['a', '/', 'b'], 1⟩, ⟨['a', '/', 'c'], 2⟩] = .ok t' := ⟨_, rfl⟩
  have hrows : empty.NoRows 1 := ⟨List.forall_mem_nil _, List.forall_mem_nil _⟩
  have hrefers : empty.ClosureRefers := List.forall_mem_nil _
  exact ⟨t', hinsert, (insertFilesInTx_tree hrows hrefers hinsert).2.2.2 _⟩

end FileTables

end TorrentFs.Db
