import TorrentFs.Cache.KeyForms

/-!
# The paths of the cache

The cache turns piece keys and info hashes into paths in five places. A key must pass
`is_valid_piece_key`; an info hash must be the file name of the path that it is joined into. Any
other text names no path, so the cache stays below its directory of pieces.
-/

namespace TorrentFs.Cache

open Text List

variable {cacheDir base s h key : Str}

def joinPath (base s : Str) : Str :=
  if s.head? = some '/' then s
  else if base = [] ∨ base.getLast? = some '/' then base ++ s
  else base ++ '/' :: s

def fileName (path : Str) : Option Str :=
  ((path.splitOn '/').filter fun c => c ≠ [] ∧ c ≠ ['.']).getLast?.filter (· ≠ ['.', '.'])

def parentPath (path : Str) : Option Str := (rsplitOnce '/' path).map Prod.fst

def piecesRoot (cacheDir : Str) : Str := joinPath cacheDir "pieces".toList

def piecePath (cacheDir key : Str) : Option Str :=
  if isValidPieceKey key then
    some (joinPath (joinPath (piecesRoot cacheDir) (pieceKeyInfoHash key)) key)
  else none

def pieceMarkerPath (cacheDir key : Str) : Option Str :=
  (piecePath cacheDir key).map (· ++ incompleteSuffix)

def ensuredDir (cacheDir key : Str) : Option Str := (piecePath cacheDir key).bind parentPath

def migratedPaths (cacheDir filename : Str) : List Str :=
  if filename = cacheMetadataFile ∨ isMetadataScratchName filename then []
  else if isValidPieceKey filename then
    let newDir := joinPath (piecesRoot cacheDir) (pieceKeyInfoHash filename)
    [newDir, joinPath newDir filename]
  else []

def piecesDirFor (cacheDir infoHash : Str) : Option Str :=
  let piecesDir := joinPath (piecesRoot cacheDir) infoHash
  if infoHash = [] ∨ (fileName piecesDir).getD [] ≠ infoHash then none else some piecesDir

def pathsFor (cacheDir s : Str) : List Str :=
  (piecePath cacheDir s).toList ++ (pieceMarkerPath cacheDir s).toList ++
    (ensuredDir cacheDir s).toList ++ migratedPaths cacheDir s ++ (piecesDirFor cacheDir s).toList

/-- A single component of a path that names an entry of its directory. -/
structure Component (s : Str) : Prop where
  ne_nil : s ≠ []
  noSlash : '/' ∉ s
  ne_dot : s ≠ ['.']
  ne_dots : s ≠ ['.', '.']

lemma component_of_fileName {path : Str} (hname : fileName path = some s) : Component s := by
  obtain ⟨hlast, hdots⟩ := Option.filter_eq_some_iff.mp hname
  obtain ⟨hmem, hkept⟩ := List.mem_filter.mp (mem_of_getLast? hlast)
  obtain ⟨hne, hdot⟩ := of_decide_eq_true hkept
  exact ⟨hne, notMem_of_mem_splitOn hmem, hdot, of_decide_eq_true hdots⟩

lemma Component.joinPath_eq (hs : Component s) (hbase : base ≠ [])
    (hend : base.getLast? ≠ some '/') : joinPath base s = base ++ '/' :: s := by
  have hhead : s.head? ≠ some '/' := fun hslash => hs.noSlash (mem_of_head? hslash)
  rw [joinPath, if_neg hhead, if_neg (not_or.mpr ⟨hbase, hend⟩)]

lemma Component.joinPath_root (hs : Component s) (cacheDir : Str) :
    joinPath (piecesRoot cacheDir) s = piecesRoot cacheDir ++ '/' :: s := by
  have hroot : ∃ front, piecesRoot cacheDir = front ++ "pieces".toList := by
    unfold piecesRoot joinPath
    rw [if_neg (by decide)]
    split
    · exact ⟨cacheDir, rfl⟩
    · exact ⟨cacheDir ++ ['/'], append_cons ..⟩
  obtain ⟨front, hroot⟩ := hroot
  refine hs.joinPath_eq ?_ ?_
  · rw [hroot]
    exact append_ne_nil_of_right_ne_nil _ (by decide)
  · rw [hroot, getLast?_append_of_ne_nil _ (by decide)]
    decide

lemma Component.joinPath_joined (hs : Component s) (hkey : Component key) (base : Str) :
    joinPath (base ++ '/' :: s) key = base ++ '/' :: s ++ '/' :: key := by
  refine hkey.joinPath_eq (append_ne_nil_of_right_ne_nil _ (cons_ne_nil _ _)) ?_
  intro hlast
  rw [append_cons, getLast?_append_of_ne_nil _ hs.ne_nil] at hlast
  exact hs.noSlash (mem_of_getLast? hlast)

lemma component_of_long (hlength : 2 < s.length) (hslash : '/' ∉ s) : Component s := by
  refine ⟨?_, hslash, ?_, ?_⟩ <;>
  · rintro rfl
    simp at hlength

lemma components_of_key (hvalid : isValidPieceKey key = true) :
    Component (pieceKeyInfoHash key) ∧ Component key := by
  obtain ⟨infoHash, index, rfl, hhash, hne, hdigits, hle⟩ := isValidPieceKey_iff.mp hvalid
  rw [(parts_of_key hhash hne hdigits hle).1]
  have hlength : 2 < infoHash.length := by
    rcases hhash.length with h | h <;> rw [h] <;> decide
  have hslash : '/' ∉ infoHash := fun hmem =>
    absurd (List.all_eq_true.mp hhash.digits _ hmem) (by decide)
  refine ⟨component_of_long hlength hslash, component_of_long ?_ ?_⟩
  · rw [length_append, length_append]
    omega
  · rw [mem_append, mem_append]
    rintro ((hmem | hmem) | hmem)
    · exact hslash hmem
    · exact absurd hmem (by decide)
    · exact absurd (List.all_eq_true.mp hdigits _ hmem) (by decide)

lemma piecePath_eq_some {path : Str} (hpath : piecePath cacheDir key = some path) :
    Component (pieceKeyInfoHash key) ∧ Component key ∧
      path = piecesRoot cacheDir ++ '/' :: pieceKeyInfoHash key ++ '/' :: key := by
  obtain ⟨hvalid, hpath⟩ := Option.ite_none_right_eq_some.mp hpath
  obtain ⟨hh, hkey⟩ := components_of_key hvalid
  rw [hh.joinPath_root, hh.joinPath_joined hkey] at hpath
  exact ⟨hh, hkey, (Option.some.inj hpath).symm⟩

/-- Every path is a piece file, its marker or the directory of an info hash, below the directory of
pieces. -/
theorem paths_confined (cacheDir s path : Str) (hpath : path ∈ pathsFor cacheDir s) :
    ∃ h key, Component h ∧ Component key ∧ (path = piecesRoot cacheDir ++ '/' :: h ++ '/' :: key ∨
        path = piecesRoot cacheDir ++ '/' :: h ++ '/' :: key ++ incompleteSuffix ∨
        path = piecesRoot cacheDir ++ '/' :: h) := by
  simp only [pathsFor, List.mem_append, Option.mem_toList] at hpath
  obtain (((hpath | hpath) | hpath) | hpath) | hpath := hpath
  · obtain ⟨hh, hkey, rfl⟩ := piecePath_eq_some hpath
    exact ⟨_, _, hh, hkey, .inl rfl⟩
  · obtain ⟨piece, hpiece, rfl⟩ := Option.map_eq_some_iff.mp hpath
    obtain ⟨hh, hkey, rfl⟩ := piecePath_eq_some hpiece
    exact ⟨_, _, hh, hkey, .inr (.inl rfl)⟩
  · obtain ⟨piece, hpiece, hparent⟩ := Option.bind_eq_some_iff.mp hpath
    obtain ⟨hh, hkey, rfl⟩ := piecePath_eq_some hpiece
    rw [parentPath, rsplitOnce_append _ hkey.noSlash, Option.map_some] at hparent
    exact ⟨_, _, hh, hkey, .inr (.inr (Option.some.inj hparent).symm)⟩
  · unfold migratedPaths at hpath
    split at hpath
    · cases hpath
    split at hpath
    · next hvalid =>
      obtain ⟨hh, hkey⟩ := components_of_key hvalid
      dsimp only at hpath
      rw [hh.joinPath_root, hh.joinPath_joined hkey, List.mem_pair] at hpath
      exact ⟨_, _, hh, hkey, hpath.elim (fun hdir => .inr (.inr hdir)) .inl⟩
    · cases hpath
  · obtain ⟨hname, hdir⟩ := Option.ite_none_left_eq_some.mp hpath
    obtain ⟨hne, hname⟩ := not_or.mp hname
    obtain ⟨name, hfile⟩ : ∃ name, fileName (joinPath (piecesRoot cacheDir) s) = some name := by
      refine Option.ne_none_iff_exists'.mp fun hnone => hne ?_
      rw [← not_not.mp hname, hnone, Option.getD_none]
    rw [hfile, Option.getD_some, not_not] at hname
    subst hname
    have hh := component_of_fileName hfile
    exact ⟨name, name, hh, hh, .inr (.inr (hh.joinPath_root _ ▸ (Option.some.inj hdir).symm))⟩

theorem path_of_sample_key : ∃ path ∈ pathsFor "cache".toList sampleKey, ∃ h key, Component h ∧
    Component key ∧ (path = piecesRoot "cache".toList ++ '/' :: h ++ '/' :: key ∨
      path = piecesRoot "cache".toList ++ '/' :: h ++ '/' :: key ++ incompleteSuffix ∨
      path = piecesRoot "cache".toList ++ '/' :: h) := by
  have hpath : "cache/pieces/".toList ++ sampleHash ++ '/' :: sampleKey ∈
      pathsFor "cache".toList sampleKey := by decide +kernel
  exact ⟨_, hpath, paths_confined _ _ _ hpath⟩

end TorrentFs.Cache
