import TorrentFs.Lib.Sql
import TorrentFs.Db.Schema

/-!
# Renaming a metadata directory

`rename_metadata_directory` moves a directory with everything below it: the row of the directory,
the paths of the directories below it and the source paths of the torrents in it. Rows below the
directory are found by an escaped `LIKE` pattern and cut with `substr` at the byte length of the
old path.
-/

namespace TorrentFs.Db

open Text Sql List Option

/-- The tables a rename touches, in the order of their row ids. -/
structure Catalog where
  metadataDirectories : List MetadataDirectory
  torrentSources : List TorrentSource
deriving DecidableEq

def escapeLikePattern (s : Str) : Str :=
  replaceChar '_' ['\\', '_'] (replaceChar '%' ['\\', '%'] (replaceChar '\\' ['\\', '\\'] s))

def quoteLike (c : Char) : Str :=
  if c = '\\' ∨ c = '%' ∨ c = '_' then ['\\', c] else [c]

lemma escapeLikePattern_eq (s : Str) : escapeLikePattern s = s.flatMap quoteLike := by
  unfold escapeLikePattern replaceChar
  rw [flatMap_assoc, flatMap_assoc]
  congr 1
  funext c
  -- a backslash added by one replacement is not touched by the next
  by_cases hb : c = '\\'
  · subst hb
    decide
  · by_cases hp : c = '%'
    · subst hp
      decide
    · by_cases hu : c = '_' <;> simp [quoteLike, hb, hp, hu]

lemma like_escapeLikePattern (p text : Str) :
    like '\\' (escapeLikePattern p ++ ['%']) text = true ↔ FoldedPrefix p text := by
  rw [escapeLikePattern_eq]
  refine like_flatMap_append (fun c => ?_) (by decide) p text
  by_cases hc : c = '\\' ∨ c = '%' ∨ c = '_'
  · exact .inl (if_pos hc)
  · rw [not_or, not_or] at hc
    exact .inr ⟨if_neg (by simp [hc]), hc.2.1, hc.2.2, hc.1⟩

def pathPrefix (path : Str) : Str := path ++ ['/']

def likeBelow (oldPath path : Str) : Bool :=
  like '\\' (escapeLikePattern (pathPrefix oldPath) ++ ['%']) path

def movedPath (oldPath newPath path : Str) : Str :=
  pathPrefix newPath ++ substr path (String.utf8Len (pathPrefix oldPath) + 1)

namespace Catalog

/-- `rename_metadata_directory`; `none` when a statement fails and the transaction is rolled
back. -/
def renameMetadataDirectory (db : Catalog) (oldPath newName newPath : Str) : Option Catalog := do
  let newParentId := (rsplitOnce '/' newPath).bind fun parts =>
    (db.metadataDirectories.find? fun d => d.path = parts.1).map MetadataDirectory.id
  let dirs ← updateUnique MetadataDirectory.path (fun d => d.path = oldPath)
    (fun d => { d with name := newName, path := newPath, parentId := newParentId })
    db.metadataDirectories
  let dirs ← updateUnique MetadataDirectory.path (fun d => likeBelow oldPath d.path)
    (fun d => { d with path := movedPath oldPath newPath d.path }) dirs
  let sources ← updateUnique (fun s => (s.sourcePath, s.filename))
    (fun s => s.sourcePath = oldPath) (fun s => { s with sourcePath := newPath })
    db.torrentSources
  let sources ← updateUnique (fun s => (s.sourcePath, s.filename))
    (fun s => likeBelow oldPath s.sourcePath)
    (fun s => { s with sourcePath := movedPath oldPath newPath s.sourcePath }) sources
  some ⟨dirs, sources⟩

end Catalog

def renamedPath (oldPath newPath path : Str) : Str :=
  if path = oldPath then newPath
  else if (pathPrefix oldPath).isPrefixOf path then newPath ++ path.drop oldPath.length
  else path

def updatedPath (oldPath newPath path : Str) : Str :=
  let moved := if path = oldPath then newPath else path
  if likeBelow oldPath moved then movedPath oldPath newPath moved else moved

/-- The rows on which the statements do what the rename is for: the directory itself does not
end up below its old path; a row below it is cut at the right place, because the old path is
ASCII or because nothing is left to keep; a row below another spelling of the old path is already
below the new one and stays as it is. -/
structure RewrittenExactly (oldPath newPath path : Str) : Prop where
  moved : path = oldPath → ¬ FoldedPrefix (pathPrefix oldPath) newPath
  inside : ∀ rest, path = pathPrefix oldPath ++ rest →
    rest = [] ∨ String.utf8Len oldPath = oldPath.length
  other : ¬ pathPrefix oldPath <+: path → FoldedPrefix (pathPrefix oldPath) path →
    pathPrefix newPath <+: path ∧
      (String.utf8Len (pathPrefix oldPath) = (pathPrefix newPath).length ∨
        (path = pathPrefix newPath ∧
          (pathPrefix newPath).length ≤ String.utf8Len (pathPrefix oldPath)))

section Row

variable {oldPath newPath path : Str}

@[simp] lemma length_pathPrefix (path : Str) : (pathPrefix path).length = path.length + 1 := by
  simp [pathPrefix]

lemma utf8Len_pathPrefix (path : Str) :
    String.utf8Len (pathPrefix path) = String.utf8Len path + 1 := by
  rw [pathPrefix, String.utf8Len_append]
  rfl

lemma likeBelow_iff : likeBelow oldPath path = true ↔ FoldedPrefix (pathPrefix oldPath) path :=
  like_escapeLikePattern _ _

lemma movedPath_eq : movedPath oldPath newPath path =
    pathPrefix newPath ++ path.drop (String.utf8Len (pathPrefix oldPath)) := rfl

lemma updatedPath_self : updatedPath oldPath newPath oldPath = renamedPath oldPath newPath oldPath ↔
      ¬ FoldedPrefix (pathPrefix oldPath) newPath := by
  have hrenamed : renamedPath oldPath newPath oldPath = newPath := if_pos rfl
  rw [hrenamed, updatedPath, if_pos rfl]
  constructor
  · intro heq hfold
    rw [if_pos (likeBelow_iff.mpr hfold), movedPath_eq] at heq
    have hlen := congrArg List.length heq
    rw [length_append, length_pathPrefix] at hlen
    omega
  · intro hfold
    rw [if_neg (mt likeBelow_iff.mp hfold)]

lemma updatedPath_inside (rest : Str) : updatedPath oldPath newPath (pathPrefix oldPath ++ rest) =
        renamedPath oldPath newPath (pathPrefix oldPath ++ rest) ↔
      rest = [] ∨ String.utf8Len oldPath = oldPath.length := by
  have hne : pathPrefix oldPath ++ rest ≠ oldPath := by
    intro heq
    have hlen := congrArg List.length heq
    rw [length_append, length_pathPrefix] at hlen
    omega
  have hlike : likeBelow oldPath (pathPrefix oldPath ++ rest) = true :=
    likeBelow_iff.mpr (foldedPrefix_of_isPrefix (prefix_append _ _))
  have hbytes := length_le_utf8Len oldPath
  have hrenamed : renamedPath oldPath newPath (pathPrefix oldPath ++ rest) =
      pathPrefix newPath ++ rest := by
    rw [renamedPath, if_neg hne, if_pos (by simp)]
    simp [pathPrefix]
  have hdrop : (pathPrefix oldPath ++ rest).drop (String.utf8Len (pathPrefix oldPath)) =
      rest.drop (String.utf8Len oldPath - oldPath.length) := by
    rw [drop_append, utf8Len_pathPrefix, length_pathPrefix,
      drop_eq_nil_of_le (by rw [length_pathPrefix]; omega), nil_append,
      Nat.add_sub_add_right]
  rw [hrenamed, updatedPath, if_neg hne]
  rw [if_pos hlike, movedPath_eq, hdrop, append_cancel_left_eq]
  constructor
  · intro heq
    have hlen := congrArg List.length heq
    rw [length_drop] at hlen
    rcases Nat.eq_zero_or_pos rest.length with hrest | hrest
    · exact .inl (eq_nil_of_length_eq_zero hrest)
    · exact .inr (by omega)
  · rintro (rfl | hascii)
    · rw [drop_nil]
    · rw [hascii, Nat.sub_self, drop_zero]

lemma updatedPath_other (hself : path ≠ oldPath) (hbelow : ¬ pathPrefix oldPath <+: path) :
    updatedPath oldPath newPath path = renamedPath oldPath newPath path ↔
      (FoldedPrefix (pathPrefix oldPath) path → pathPrefix newPath <+: path ∧
          (String.utf8Len (pathPrefix oldPath) = (pathPrefix newPath).length ∨
            (path = pathPrefix newPath ∧
              (pathPrefix newPath).length ≤ String.utf8Len (pathPrefix oldPath)))) := by
  have hrenamed : renamedPath oldPath newPath path = path := by
    rw [renamedPath, if_neg hself, if_neg (by simpa using hbelow)]
  rw [hrenamed, updatedPath, if_neg hself]
  by_cases hfold : FoldedPrefix (pathPrefix oldPath) path
  · rw [if_pos (likeBelow_iff.mpr hfold), movedPath_eq]
    set n := String.utf8Len (pathPrefix oldPath) with hn
    simp only [hfold, forall_const]
    constructor
    · intro heq
      refine ⟨⟨_, heq⟩, ?_⟩
      have hlen := congrArg List.length heq
      rw [length_append, length_drop] at hlen
      rcases Nat.lt_or_ge path.length n with hlt | hge
      · -- the cut lies past the end, so nothing is left of the path
        rw [drop_eq_nil_of_le hlt.le, append_nil] at heq
        exact .inr ⟨heq.symm, by omega⟩
      · exact .inl (by omega)
    · rintro ⟨⟨rest, rfl⟩, hcut | ⟨heq, hle⟩⟩
      · rw [hcut, drop_left]
      · obtain rfl : rest = [] := by simpa using heq
        rw [append_nil, drop_eq_nil_of_le hle, append_nil]
  · rw [if_neg (mt likeBelow_iff.mp hfold)]
    simp [hfold]

lemma updatedPath_eq_iff : updatedPath oldPath newPath path = renamedPath oldPath newPath path ↔
      RewrittenExactly oldPath newPath path := by
  by_cases hself : path = oldPath
  · subst hself
    rw [updatedPath_self]
    have hshort : ∀ p, pathPrefix path ++ p ≠ path := by
      intro p heq
      have hlen := congrArg List.length heq
      rw [length_append, length_pathPrefix] at hlen
      omega
    refine ⟨fun h => ⟨fun _ => h, fun rest hrest => absurd hrest.symm (hshort rest), ?_⟩,
      fun h => h.moved rfl⟩
    intro _ hfold
    have hlen := hfold.length_le
    rw [length_pathPrefix] at hlen
    omega
  · by_cases hbelow : pathPrefix oldPath <+: path
    · obtain ⟨rest, rfl⟩ := hbelow
      rw [updatedPath_inside]
      refine ⟨fun h => ⟨fun heq => absurd heq hself, fun rest' hrest => ?_, fun hnot => ?_⟩,
        fun h => h.inside rest rfl⟩
      · rwa [← append_cancel_left hrest]
      · exact absurd (prefix_append _ _) hnot
    · rw [updatedPath_other hself hbelow]
      refine ⟨fun h => ⟨fun heq => absurd heq hself, fun rest hrest => ?_, fun _ => h⟩,
        fun h => h.other hbelow⟩
      exact absurd ⟨rest, hrest.symm⟩ hbelow

instance : Decidable (RewrittenExactly oldPath newPath path) :=
  decidable_of_iff _ updatedPath_eq_iff

end Row

namespace Catalog

lemma sources_of_rename {db db' : Catalog} {oldPath newName newPath : Str}
    (h : db.renameMetadataDirectory oldPath newName newPath = some db') :
    db'.torrentSources = db.torrentSources.map (fun s =>
        { s with sourcePath := updatedPath oldPath newPath s.sourcePath }) ∧
      ((db.torrentSources.map fun s => (s.sourcePath, s.filename)).Nodup →
        (db'.torrentSources.map fun s => (s.sourcePath, s.filename)).Nodup) := by
  simp only [renameMetadataDirectory, bind_eq_bind, bind_eq_some_iff,
    Option.some.injEq] at h
  obtain ⟨dirs₁, -, dirs₂, -, sources₁, hsources₁, sources₂, hsources₂, rfl⟩ := h
  refine ⟨?_, fun hnodup => nodup_updateUnique hsources₂ (nodup_updateUnique hsources₁ hnodup)⟩
  rw [updateUnique_eq_some hsources₂, updateUnique_eq_some hsources₁, List.map_map]
  refine map_congr_left fun s _ => ?_
  by_cases hself : s.sourcePath = oldPath <;>
    by_cases hlike : likeBelow oldPath newPath = true <;>
    by_cases hlike' : likeBelow oldPath s.sourcePath = true <;>
    simp [updatedPath, hself, hlike, hlike']

lemma rows_of_rename {db db' : Catalog} {oldPath newName newPath : Str}
    (h : db.renameMetadataDirectory oldPath newName newPath = some db') :
    db'.metadataDirectories.map (fun d => (d.id, d.path)) =
        db.metadataDirectories.map (fun d => (d.id, updatedPath oldPath newPath d.path)) ∧
      db'.torrentSources.map (fun s => (s.id, s.sourcePath)) =
        db.torrentSources.map (fun s => (s.id, updatedPath oldPath newPath s.sourcePath)) := by
  refine ⟨?_, by rw [(sources_of_rename h).1, List.map_map]; rfl⟩
  simp only [renameMetadataDirectory, bind_eq_bind, bind_eq_some_iff,
    Option.some.injEq] at h
  obtain ⟨dirs₁, hdirs₁, dirs₂, hdirs₂, sources₁, -, sources₂, -, rfl⟩ := h
  rw [updateUnique_eq_some hdirs₂, updateUnique_eq_some hdirs₁]
  simp only [List.map_map]
  refine map_congr_left fun d _ => ?_
  by_cases hself : d.path = oldPath <;> by_cases hlike : likeBelow oldPath newPath = true <;>
    by_cases hlike' : likeBelow oldPath d.path = true <;>
    simp [updatedPath, hself, hlike, hlike']

/-- A rename that succeeds gives every row the path it should have exactly when every row of the
two tables is one the statements rewrite exactly. -/
theorem rename_rewrites_iff (db db' : Catalog) (oldPath newName newPath : Str)
    (h : db.renameMetadataDirectory oldPath newName newPath = some db') :
    (db'.metadataDirectories.map (fun d => (d.id, d.path)) =
          db.metadataDirectories.map (fun d => (d.id, renamedPath oldPath newPath d.path)) ∧
        db'.torrentSources.map (fun s => (s.id, s.sourcePath)) =
          db.torrentSources.map (fun s => (s.id, renamedPath oldPath newPath s.sourcePath))) ↔
      (∀ d ∈ db.metadataDirectories, RewrittenExactly oldPath newPath d.path) ∧
        ∀ s ∈ db.torrentSources, RewrittenExactly oldPath newPath s.sourcePath := by
  obtain ⟨hdirs, hsources⟩ := rows_of_rename h
  rw [hdirs, hsources, List.map_inj_left, List.map_inj_left]
  simp only [Prod.mk.injEq, true_and, updatedPath_eq_iff]

def twoDirectories (parent child : String) : Catalog where
  metadataDirectories := [⟨1, none, parent.toList, parent.toList⟩,
    ⟨2, some 1, child.toList, (parent ++ "/" ++ child).toList⟩]
  torrentSources := []

theorem rename_rewrites_ascii :
    ∃ db', (twoDirectories "a" "xy").renameMetadataDirectory "a".toList "b".toList "b".toList =
        some db' ∧
      db'.metadataDirectories.map MetadataDirectory.path = ["b".toList, "b/xy".toList] ∧
      ∀ d ∈ (twoDirectories "a" "xy").metadataDirectories,
        RewrittenExactly "a".toList "b".toList d.path := by
  refine ⟨_, rfl, by decide, ?_⟩
  exact ((rename_rewrites_iff (twoDirectories "a" "xy") _ "a".toList "b".toList "b".toList
    rfl).mp ⟨by decide, by decide⟩).1

/-- A name of one character and two bytes: the directory below it loses the first character of
its name. -/
theorem rename_cuts_at_byte_length :
    ∃ db', (twoDirectories "é" "xy").renameMetadataDirectory "é".toList "b".toList "b".toList =
        some db' ∧ db'.metadataDirectories.map MetadataDirectory.path = ["b".toList, "b/y".toList] ∧
      db'.metadataDirectories.map (fun d => (d.id, d.path)) ≠
        (twoDirectories "é" "xy").metadataDirectories.map
          (fun d => (d.id, renamedPath "é".toList "b".toList d.path)) :=
  ⟨_, rfl, by decide, by decide⟩

/-! ### The sources below a directory -/

def getTorrentsBySourcePathPrefix (db : Catalog) (sourcePath : Str) : List TorrentSource :=
  let pattern := if sourcePath = [] then ['%'] else escapeLikePattern sourcePath ++ ['/', '%']
  db.torrentSources.filter fun s => s.sourcePath = sourcePath || like '\\' pattern s.sourcePath

lemma mem_getTorrentsBySourcePathPrefix {db : Catalog} {path : Str} (hpath : path ≠ [])
    {s : TorrentSource} : s ∈ db.getTorrentsBySourcePathPrefix path ↔ s ∈ db.torrentSources ∧
        (s.sourcePath = path ∨ FoldedPrefix (pathPrefix path) s.sourcePath) := by
  have hslash : escapeLikePattern path ++ ['/', '%'] =
      escapeLikePattern (pathPrefix path) ++ ['%'] := by
    simp [escapeLikePattern_eq, pathPrefix, quoteLike]
  rw [getTorrentsBySourcePathPrefix, if_neg hpath, hslash, mem_filter, Bool.or_eq_true,
    decide_eq_true_eq, like_escapeLikePattern]

/-- The sources returned are those at the path or below it exactly if no source lies below a path
that differs from it in the case of ASCII letters only. -/
theorem sources_below_iff (db : Catalog) {path : Str} (hpath : path ≠ []) :
    db.getTorrentsBySourcePathPrefix path =
        db.torrentSources.filter (fun s => s.sourcePath = path ∨ pathPrefix path <+: s.sourcePath) ↔
      ∀ s ∈ db.torrentSources, FoldedPrefix (pathPrefix path) s.sourcePath →
        pathPrefix path <+: s.sourcePath := by
  constructor
  · intro heq s hs hfolded
    have hmem := (mem_getTorrentsBySourcePathPrefix hpath).mpr ⟨hs, .inr hfolded⟩
    rw [heq, List.mem_filter, decide_eq_true_eq] at hmem
    refine hmem.2.resolve_left fun hself => ?_
    -- the path itself is shorter than what lies below it
    have hlength := hfolded.length_le
    rw [hself, pathPrefix, List.length_append, List.length_singleton] at hlength
    omega
  · intro h
    refine List.filter_congr fun s hs => Bool.eq_iff_iff.mpr ?_
    have hmem := @mem_getTorrentsBySourcePathPrefix db path hpath s
    rw [getTorrentsBySourcePathPrefix, List.mem_filter, and_congr_right_iff] at hmem
    rw [hmem hs, decide_eq_true_eq]
    exact or_congr_right ⟨h s hs, foldedPrefix_of_isPrefix⟩

/-- A source below `A` is returned for `a`. -/
theorem source_of_other_case_returned :
    getTorrentsBySourcePathPrefix ⟨[], [⟨1, 1, "A/b".toList, "x.torrent".toList⟩]⟩ ['a'] =
      [⟨1, 1, "A/b".toList, "x.torrent".toList⟩] ∧ ¬ pathPrefix ['a'] <+: "A/b".toList := by
  decide

theorem sources_below_percent : getTorrentsBySourcePathPrefix ⟨[], [⟨1, 1, "a%_\\".toList, ['x']⟩,
        ⟨2, 1, "a%_\\/ä".toList, ['x']⟩, ⟨3, 1, "abcd/ä".toList, ['x']⟩]⟩ "a%_\\".toList =
      [⟨1, 1, "a%_\\".toList, ['x']⟩, ⟨2, 1, "a%_\\/ä".toList, ['x']⟩] :=
  (sources_below_iff _ (by decide)).mpr (by decide)

end Catalog

end TorrentFs.Db
