import TorrentFs.Fuse.DataTree

/-!
# The listing of a directory of `data/`

`readdir_data` has a branch for each kind of directory, and so has `resolve_data_lookup`. Here every
listing is brought to one form: `.` and `..`, what the tables or the torrent file give, `.stats`
where the directory has one, and the torrents that are being added. The children in it are then
compared with those that a lookup finds, and `..` with the directory that lists the child.
-/

namespace TorrentFs.Fuse

open Text Word Db Services InodeManager List Option

/-! ### Offsets -/

/-- The entries numbered by their positions, from 1 on. -/
def withOffsets (entries : List (ℕ × FileKind × Str)) : List DirEntry :=
  entries.mapIdx fun i e => ⟨e.1, i + 1, e.2.1, e.2.2⟩

def dotEntries (ino parent : ℕ) : List (ℕ × FileKind × Str) :=
  [(ino, .directory, ".".toList), (parent, .directory, "..".toList)]

def statsEntry (ino : ℕ) : List (ℕ × FileKind × Str) :=
  [(makeStatsIno ino, .regularFile, ".stats".toList)]

section Counters

variable {es added : List (ℕ × FileKind × Str)} {ino parent : ℕ}

@[simp] lemma length_withOffsets : (withOffsets es).length = es.length := by simp [withOffsets]

@[simp] lemma getElem?_withOffsets (i : ℕ) :
    (withOffsets es)[i]? = es[i]?.map fun e => ⟨e.1, i + 1, e.2.1, e.2.2⟩ := by
  simp [withOffsets]

lemma withOffsets_concat (e : ℕ × FileKind × Str) :
    withOffsets (es ++ [e]) = withOffsets es ++ [⟨e.1, es.length + 1, e.2.1, e.2.2⟩] := by
  simp [withOffsets, mapIdx_append]

namespace NumberedListing

lemma push_withOffsets : push ⟨withOffsets es, es.length + 1⟩ added =
    ⟨withOffsets (es ++ added), (es ++ added).length + 1⟩ := by
  induction added generalizing es with
  | nil => simp [push]
  | cons e added ih =>
    rw [append_cons, ← ih, withOffsets_concat, length_append]
    rfl

lemma push_append (xs ys : List DirEntry) (n : ℕ) :
    (push ⟨xs ++ ys, n⟩ added).entries = xs ++ (push ⟨ys, n⟩ added).entries := by
  induction added generalizing ys n with
  | nil => rfl
  | cons e added ih => rw [push, foldl_cons, append_assoc]; exact ih _ _

lemma pushStats_withOffsets : pushStats ⟨withOffsets es, es.length + 1⟩ ino =
    ⟨withOffsets (es ++ statsEntry ino), (es ++ statsEntry ino).length⟩ := by
  rw [statsEntry, withOffsets_concat, length_append]
  rfl

lemma pushPending_withOffsets : pushPending ⟨withOffsets es, es.length⟩ added =
    ⟨withOffsets (es ++ added), (es ++ added).length⟩ := by
  induction added generalizing es with
  | nil => simp [pushPending]
  | cons e added ih =>
    rw [append_cons, ← ih, withOffsets_concat, length_append]
    rfl

lemma entries_start : (start ino parent).entries = withOffsets (dotEntries ino parent) := rfl

lemma entries_push_start :
    ((start ino parent).push added).entries = withOffsets (dotEntries ino parent ++ added) :=
  congrArg entries (@push_withOffsets (dotEntries ino parent) added)

lemma pushStats_push_start : ((start ino parent).push added).pushStats ino =
    ⟨withOffsets (dotEntries ino parent ++ added ++ statsEntry ino),
      (dotEntries ino parent ++ added ++ statsEntry ino).length⟩ := by
  rw [← pushStats_withOffsets, ← push_withOffsets]
  rfl

end NumberedListing

lemma pendingListing_eq (children : List ListedChild) :
    withOffsets (dotEntries ino parent) ++ pendingListing children =
      withOffsets (dotEntries ino parent ++ listing children) := by
  rw [pendingListing, ← NumberedListing.push_append, append_nil]
  exact congrArg NumberedListing.entries NumberedListing.push_withOffsets

lemma appendStats_withOffsets (hne : es ≠ []) :
    appendStats (withOffsets es) ino = withOffsets (es ++ statsEntry ino) := by
  have hpos := length_pos_iff.mpr hne
  have hlast : (withOffsets es).getLast?.map DirEntry.offset = some es.length := by
    rw [getLast?_eq_getElem?, length_withOffsets, getElem?_withOffsets,
      getElem?_eq_getElem (by omega)]
    simp
    omega
  rw [statsEntry, withOffsets_concat, appendStats, hlast]
  rfl

end Counters

/-! ### The form of a listing -/

/-- The directory of `data/` with some number: `data/` itself, which has no cached inode, or a
cached inode that is not that of a file. -/
def dataDir (mgr : InodeManager) (ino : ℕ) : Option (Option DataInode) :=
  if ino = dataIno then some none
  else
    match mgr.dataInodes.get ino with
    | none => none
    | some (.torrentFile ..) => none
    | some d => some (some d)

lemma dataDir_cases {mgr : InodeManager} {ino : ℕ} {d : Option DataInode}
    (h : dataDir mgr ino = some d) : (ino = dataIno ∧ d = none) ∨ ino ≠ dataIno ∧ ∃ i, d = some i ∧
      mgr.dataInodes.get ino = some i ∧
        ∀ t f name size p q, i ≠ .torrentFile t f name size p q := by
  unfold dataDir at h
  split at h
  · next hroot => exact .inl ⟨hroot, (Option.some.inj h).symm⟩
  next hroot =>
  split at h
  · cases h
  · cases h
  · next i hfile hget => exact .inr ⟨hroot, i, (Option.some.inj h).symm, hget, hfile⟩

def sourcePathOf : Option DataInode → Option Str
  | none => some []
  | some (.sourcePathDir path) => some path
  | _ => none

@[simp] lemma listing_nil : listing [] = [] := rfl

section Listings

variable (hash : List Str → ℕ) (m : FinMap ℕ InodeData) (names : NameTables)
  (keys : List (Str × Str))

def recorded : Option DataInode → List ListedChild
  | none => torrentEntries names.torrents [] ++ sourcePathEntries hash names.directories []
  | some (.sourcePathDir path) =>
    sourcePathEntries hash names.directories path ++ torrentEntries names.torrents path
  | some (.torrentRoot torrentId sourcePath _ filename) =>
    if torrentId = 0 then (readdirPendingTorrent hash m sourcePath filename []).getD []
    else landedEntries names.torrents torrentId none
  | some (.torrentDir torrentId dirId _ dirPath sourcePath filename) =>
    if torrentId = 0 then (readdirPendingTorrent hash m sourcePath filename dirPath).getD []
    else landedEntries names.torrents torrentId (some dirId)
  | some (.torrentFile ..) => []

def underway (d : Option DataInode) : List ListedChild :=
  match sourcePathOf d with
  | some path =>
    collectPendingEntries hash m keys path ((recorded hash m names d).map ListedChild.name)
  | none => []

def showsStats : Option DataInode → Bool
  | none => true
  | some (.sourcePathDir _) => true
  | some (.torrentRoot torrentId sourcePath _ filename) =>
    torrentId ≠ 0 || (readdirPendingTorrent hash m sourcePath filename []).isSome
  | _ => false

def dotDot : Option DataInode → ℕ
  | none => rootIno
  | some (.sourcePathDir path) => parentOfSourcePath hash path
  | some (.torrentRoot _ sourcePath _ _) => parentOfSourcePath hash sourcePath
  | some (.torrentDir torrentId dirId _ dirPath sourcePath filename) =>
    if torrentId = 0 then parentOfPendingDir hash sourcePath filename dirPath
    else parentOfTorrentDir names torrentId dirId
  | some (.torrentFile ..) => 0

/-- What a directory lists, without the offsets. -/
def dataEntries (ino : ℕ) (d : Option DataInode) : List (ℕ × FileKind × Str) :=
  dotEntries ino (dotDot hash names d) ++ listing (recorded hash m names d) ++
    (if showsStats hash m d then statsEntry ino else []) ++
    listing (underway hash m names keys d)

lemma readdirSourcePath_fst (mgr : InodeManager) (ino parent : ℕ) (path : Str)
    (landed : List ListedChild) :
    (readdirSourcePath hash mgr keys ino parent path landed).1 =
      some (withOffsets (dotEntries ino parent ++ listing landed ++ statsEntry ino ++
        listing (collectPendingEntries hash mgr.inodes keys path
          (landed.map ListedChild.name)))) := by
  simp only [readdirSourcePath, NumberedListing.pushStats_push_start,
    NumberedListing.pushPending_withOffsets]

/-- The listing of every branch has its entries numbered by position. -/
lemma readdirData_fst (mgr : InodeManager) (ino : ℕ) :
    (readdirData hash mgr names keys ino).1 =
      (dataDir mgr ino).map fun d =>
        withOffsets (dataEntries hash mgr.inodes names keys ino d) := by
  unfold readdirData dataDir
  split
  · exact readdirSourcePath_fst ..
  cases mgr.dataInodes.get ino with
  | none => rfl
  | some d =>
    cases d with
    | torrentFile => rfl
    | sourcePathDir => exact readdirSourcePath_fst ..
    | torrentRoot torrentId sourcePath name filename =>
      by_cases hid : torrentId = 0
      · cases hpending : readdirPendingTorrent hash mgr.inodes sourcePath filename [] with
        | none => simp [dataEntries, recorded, underway, showsStats, dotDot, sourcePathOf, hid,
            hpending, NumberedListing.entries_start]
        | some children =>
          have hne : dotEntries ino (parentOfSourcePath hash sourcePath) ++ listing children ≠ [] :=
            cons_ne_nil _ _
          simp [dataEntries, recorded, underway, showsStats, dotDot, sourcePathOf, hid, hpending,
            NumberedListing.entries_start, pendingListing_eq, appendStats_withOffsets hne]
      · simp [dataEntries, recorded, underway, showsStats, dotDot, sourcePathOf, hid,
          NumberedListing.pushStats_push_start]
    | torrentDir torrentId dirId name dirPath sourcePath filename =>
      by_cases hid : torrentId = 0
      · cases hpending : readdirPendingTorrent hash mgr.inodes sourcePath filename dirPath <;>
          simp [dataEntries, recorded, underway, showsStats, dotDot, sourcePathOf, hid, hpending,
            NumberedListing.entries_start, pendingListing_eq]
      · simp [dataEntries, recorded, underway, showsStats, dotDot, sourcePathOf, hid,
          NumberedListing.entries_push_start]

end Listings

/-- The entries give a number and a kind for a name. -/
def ListsAs (entries : List DirEntry) (name : Str) (e : ℕ × FileKind) : Prop :=
  ∃ x ∈ entries, x.name = name ∧ (x.ino, x.kind) = e

section Offsets

variable {es : List (ℕ × FileKind × Str)}

lemma listsAs_withOffsets {name : Str} {e : ℕ × FileKind} :
    ListsAs (withOffsets es) name e ↔ (e.1, e.2, name) ∈ es := by
  simp only [ListsAs, mem_iff_getElem?, getElem?_withOffsets, map_eq_some_iff]
  constructor
  · rintro ⟨x, ⟨i, x', hx, rfl⟩, rfl, rfl⟩
    exact ⟨i, hx⟩
  · rintro ⟨i, hi⟩
    exact ⟨_, ⟨i, _, hi, rfl⟩, rfl, rfl⟩

end Offsets

/-! ### The children of a directory -/

section Children

variable {hash : List Str → ℕ} {m : FinMap ℕ InodeData} {names : NameTables}
  {keys : List (Str × Str)} {d : Option DataInode} {path : Str} {c : ListedChild}

lemma mem_sourcePathEntries {t : DirectoryTable} :
    c ∈ sourcePathEntries hash t path ↔ ∃ sub ∈ getSourcePathPrefixes t path,
      c = ⟨makeSourcePathDirIno hash (childPath path sub), .sourcePathDir (childPath path sub),
        sub⟩ := by
  simp [sourcePathEntries, eq_comm]

lemma mem_torrentEntries {t : TorrentTables} :
    c ∈ torrentEntries t path ↔ ∃ r ∈ getTorrentsBySourcePath t path,
      c = ⟨makeTorrentRootIno r.1.id, .torrentRoot r.1.id r.1.sourcePath r.2.name r.1.filename,
        r.1.filename⟩ := by
  simp [torrentEntries, eq_comm]

lemma sourcePath_of_mem {t : TorrentTables} {r : TorrentSource × Content}
    (h : r ∈ getTorrentsBySourcePath t path) : r.1.sourcePath = path := by
  simp only [getTorrentsBySourcePath, mem_filterMap, mem_filter,
    TorrentTables.joined, map_eq_some_iff] at h
  obtain ⟨source, ⟨-, hpath⟩, content, -, rfl⟩ := h
  exact of_decide_eq_true hpath

lemma mem_recorded (h : sourcePathOf d = some path) : c ∈ recorded hash m names d ↔
      c ∈ sourcePathEntries hash names.directories path ∨
        c ∈ torrentEntries names.torrents path := by
  cases d with
  | none =>
    obtain rfl : [] = path := Option.some.inj h
    simp [recorded, or_comm]
  | some d =>
    cases d with
    | sourcePathDir other =>
      obtain rfl : other = path := Option.some.inj h
      simp [recorded]
    | _ => cases h

lemma mem_underway (h : sourcePathOf d = some path) :
    c ∈ underway hash m names keys d ↔ ∃ filename, (path, filename) ∈ keys ∧
      filename ∉ (recorded hash m names d).map ListedChild.name ∧
      c = ⟨makePendingTorrentIno hash path filename,
        .torrentRoot 0 path (parsePendingTorrentName m path filename) filename, filename⟩ := by
  simp only [underway, h, collectPendingEntries, List.mem_map, mem_filter, Bool.and_eq_true,
    decide_eq_true_eq]
  constructor
  · rintro ⟨⟨other, filename⟩, ⟨hkey, rfl, hnew⟩, rfl⟩
    exact ⟨filename, hkey, hnew, rfl⟩
  · rintro ⟨filename, hkey, hnew, rfl⟩
    exact ⟨(path, filename), ⟨hkey, rfl, hnew⟩, rfl⟩

lemma mem_dataEntries_of_mem {ino : ℕ}
    (hc : c ∈ recorded hash m names d ++ underway hash m names keys d) :
    (c.ino, c.kind, c.name) ∈ dataEntries hash m names keys ino d := by
  have hlisted := List.mem_map_of_mem (f := fun c => (c.ino, c.kind, c.name)) hc
  rw [map_append, mem_append] at hlisted
  simp only [dataEntries, mem_append, listing]
  tauto

lemma underway_eq_nil (h : sourcePathOf d = none) : underway hash m names keys d = [] := by
  simp [underway, h]

variable {sourcePath filename dirPath : Str} {f : PendingFile} {files : List PendingFile}
  {seenDirs : List Str} {name : Str}

variable (hash sourcePath filename dirPath) in
def pendingDirChild (name : Str) : ListedChild :=
  ⟨makePendingTorrentDirIno hash sourcePath filename (childPath dirPath name),
    .torrentDir 0 0 name (childPath dirPath name) sourcePath filename, name⟩

variable (hash sourcePath filename) in
def pendingFileChild (f : PendingFile) (name : Str) : ListedChild :=
  ⟨makePendingTorrentFileIno hash sourcePath filename f.path,
    .torrentFile 0 0 name (toI64 f.size) sourcePath filename, name⟩

lemma above_append (dirPath name : Str) :
    (if dirPath = [] then [] else dirPath ++ ['/']) ++ name = childPath dirPath name := by
  unfold childPath
  split
  · rfl
  · rw [append_assoc]
    rfl

lemma childPath_inj {a b : Str} : childPath dirPath a = childPath dirPath b ↔ a = b := by
  rw [← above_append, ← above_append, append_cancel_left_eq]

lemma childPath_append (name rest : Str) :
    childPath dirPath name ++ rest = childPath dirPath (name ++ rest) := by
  rw [← above_append, ← above_append, append_assoc]

lemma splitOnce_cons (rest : Str) (h : '/' ∉ name) :
    splitOnce ['/'] (name ++ '/' :: rest) = some (name, rest) := by
  simpa using splitOnce_append [] rest h

variable (m sourcePath filename) in
def pendingFilesOf : Option (List PendingFile) :=
  ((findPendingTorrentData m sourcePath filename).bind extractBencodeFiles).map Prod.snd

lemma readdirPendingTorrent_eq : readdirPendingTorrent hash m sourcePath filename dirPath =
      (pendingFilesOf m sourcePath filename).map
        (pendingEntries hash sourcePath filename dirPath []) := by
  unfold readdirPendingTorrent pendingFilesOf
  cases findPendingTorrentData m sourcePath filename with
  | none => rfl
  | some torrentData => simp [Function.comp_def]

lemma mem_readdirPendingTorrent :
    c ∈ (readdirPendingTorrent hash m sourcePath filename dirPath).getD [] ↔
      ∃ files, pendingFilesOf m sourcePath filename = some files ∧
        c ∈ pendingEntries hash sourcePath filename dirPath [] files := by
  rw [readdirPendingTorrent_eq]
  cases pendingFilesOf m sourcePath filename <;> simp

theorem pendingEntries_cons (hash : List Str → ℕ) (sourcePath filename dirPath : Str)
    (f : PendingFile) (files : List PendingFile) :
    (∃ name rest, '/' ∉ name ∧ f.path = childPath dirPath (name ++ '/' :: rest) ∧ ∀ seenDirs,
      pendingEntries hash sourcePath filename dirPath seenDirs (f :: files) =
        if name ∈ seenDirs then pendingEntries hash sourcePath filename dirPath seenDirs files
        else pendingDirChild hash sourcePath filename dirPath name ::
          pendingEntries hash sourcePath filename dirPath (name :: seenDirs) files) ∨
    (∃ name, '/' ∉ name ∧ name ≠ [] ∧ f.path = childPath dirPath name ∧ ∀ seenDirs,
      pendingEntries hash sourcePath filename dirPath seenDirs (f :: files) =
        pendingFileChild hash sourcePath filename f name ::
          pendingEntries hash sourcePath filename dirPath seenDirs files) ∨
    ((∀ name, f.path = childPath dirPath name → name = []) ∧ ∀ seenDirs,
      pendingEntries hash sourcePath filename dirPath seenDirs (f :: files) =
        pendingEntries hash sourcePath filename dirPath seenDirs files) := by
  by_cases hbelow : ∃ name, f.path = childPath dirPath name ∧ name ≠ []
  · obtain ⟨remainder, hpath, hne⟩ := hbelow
    have habove := above_append dirPath remainder
    have hstep : ∀ seenDirs, pendingEntries hash sourcePath filename dirPath seenDirs (f :: files) =
        (splitOnce ['/'] remainder).elim
          (pendingFileChild hash sourcePath filename f remainder ::
            pendingEntries hash sourcePath filename dirPath seenDirs files)
          fun p => if p.1 ∈ seenDirs then
              pendingEntries hash sourcePath filename dirPath seenDirs files
            else pendingDirChild hash sourcePath filename dirPath p.1 ::
              pendingEntries hash sourcePath filename dirPath (p.1 :: seenDirs) files := by
      intro seenDirs
      rw [pendingEntries]
      rw [hpath, ← habove, drop_left, if_neg]
      · rw [habove, ← hpath]
        cases splitOnce ['/'] remainder <;> rfl
      · simp [hne]
    by_cases hsep : '/' ∈ remainder
    · obtain ⟨name, rest, rfl, hname⟩ := eq_append_cons_of_mem hsep
      refine .inl ⟨name, rest, hname, hpath, fun seenDirs => ?_⟩
      rw [hstep, splitOnce_cons rest hname]
      rfl
    · refine .inr (.inl ⟨remainder, hsep, hne, hpath, fun seenDirs => ?_⟩)
      have hsplit : splitOnce ['/'] remainder = none := by
        rw [eq_none_iff_forall_not_mem]
        rintro ⟨before, after⟩ h
        rw [eq_of_splitOnce h] at hsep
        simp at hsep
      rw [hstep, hsplit]
      rfl
  · push Not at hbelow
    refine .inr (.inr ⟨hbelow, fun seenDirs => ?_⟩)
    rw [pendingEntries]
    rw [if_pos]
    rw [Bool.or_eq_true, Bool.not_eq_true', decide_eq_true_eq, or_iff_not_imp_left,
      Bool.not_eq_false, isPrefixOf_iff_prefix]
    rintro ⟨remainder, hpath⟩
    rw [← hpath, drop_left]
    rw [above_append] at hpath
    exact hbelow remainder hpath.symm

lemma mem_pendingEntries : c ∈ pendingEntries hash sourcePath filename dirPath seenDirs files ↔
      (∃ name, name ∉ seenDirs ∧ '/' ∉ name ∧
        (∃ f ∈ files, ∃ rest, f.path = childPath dirPath (name ++ '/' :: rest)) ∧
        c = pendingDirChild hash sourcePath filename dirPath name) ∨
      ∃ name, name ≠ [] ∧ '/' ∉ name ∧ ∃ f ∈ files, f.path = childPath dirPath name ∧
        c = pendingFileChild hash sourcePath filename f name := by
  induction files generalizing seenDirs with
  | nil => simp [pendingEntries]
  | cons f files ih =>
    rcases pendingEntries_cons hash sourcePath filename dirPath f files with
      ⟨name, rest, hname, hpath, hstep⟩ | ⟨name, hname, hne, hpath, hstep⟩ | ⟨hpath, hstep⟩
    · have hfile : ∀ other, '/' ∉ other → f.path ≠ childPath dirPath other := by
        rintro other hother heq
        rw [hpath, childPath_inj] at heq
        simp [← heq] at hother
      have hdir : ∀ other, '/' ∉ other →
          ((∃ rest, f.path = childPath dirPath (other ++ '/' :: rest)) ↔ other = name) := by
        intro other hother
        refine ⟨?_, fun heq => ⟨rest, heq ▸ hpath⟩⟩
        rintro ⟨rest', heq⟩
        rw [hpath, childPath_inj] at heq
        have hsplit := splitOnce_cons rest hname
        rw [heq, splitOnce_cons rest' hother] at hsplit
        exact (Prod.mk.inj (Option.some.inj hsplit)).1
      rw [hstep]
      split <;> grind
    · have hdir : ∀ other rest, f.path ≠ childPath dirPath (other ++ '/' :: rest) := by
        rintro other rest heq
        rw [hpath, childPath_inj] at heq
        simp [heq] at hname
      have hfile : ∀ other, f.path = childPath dirPath other ↔ other = name := by
        intro other
        rw [hpath, childPath_inj, eq_comm]
      rw [hstep]
      grind
    · have hdir : ∀ other rest, f.path ≠ childPath dirPath (other ++ '/' :: rest) := by
        intro other rest heq
        simpa using hpath _ heq
      rw [hstep]
      grind

end Children

/-! ### Children that a lookup finds -/

/-- A name that the kernel can look up: not empty, without a slash, and neither `.` nor `..`. -/
structure Component (name : Str) : Prop where
  nonempty : name ≠ []
  noSlash : '/' ∉ name
  notDot : name ≠ ".".toList
  notDotDot : name ≠ "..".toList

/-- A search and a listing agree: what is found under the name of an entry is listed, and what is
listed is found. -/
structure Resolves (find : Str → Option (ℕ × DataInode)) (children : List ListedChild) : Prop where
  listed : ∀ name e, Component name → find name = some e → ⟨e.1, e.2, name⟩ ∈ children
  found : ∀ c ∈ children, Component c.name → find c.name ≠ none

lemma Resolves.eq_some_iff {find : Str → Option (ℕ × DataInode)} {children : List ListedChild}
    (h : Resolves find children) (hnodup : (children.map ListedChild.name).Nodup) {name : Str}
    (hname : Component name) (e : ℕ × DataInode) :
    find name = some e ↔ ⟨e.1, e.2, name⟩ ∈ children := by
  refine ⟨h.listed name e hname, fun hmem => ?_⟩
  obtain ⟨e', he'⟩ := Option.ne_none_iff_exists'.mp (h.found _ hmem hname)
  have heq := inj_on_of_nodup_map hnodup hmem (h.listed name e' hname he') rfl
  obtain ⟨hino, hinode, -⟩ := ListedChild.mk.inj heq
  rw [he', Prod.ext hino hinode]

/-- The files in the rows of a directory belong to the content of its torrent. A listing of a
directory does not compare the contents, a lookup does. -/
def FilesOwned (t : TorrentTables) (torrentId : ℕ) (parent : Option ℕ) : Prop :=
  parent ≠ none → ∀ f ∈ t.files.files.rows, f.directoryId = parent → Component f.name →
    resolveContentId t torrentId = some f.torrentId

section Resolves

variable {hash : List Str → ℕ} {m : FinMap ℕ InodeData} {names : NameTables}

lemma resolves_sourcePath (path : Str) : Resolves (resolveSourcePathDirLookup hash names path)
      (sourcePathEntries hash names.directories path ++ torrentEntries names.torrents path) where
  listed := by
    intro name e _ h
    rw [mem_append, mem_sourcePathEntries, mem_torrentEntries]
    unfold resolveSourcePathDirLookup at h
    split at h
    · next hsub =>
      cases h
      exact .inl ⟨name, hsub, rfl⟩
    · obtain ⟨r, hfind, rfl⟩ := Option.map_eq_some_iff.mp h
      obtain rfl : r.1.filename = name := by simpa using find?_some hfind
      exact .inr ⟨r, mem_of_find?_eq_some hfind, rfl⟩
  found := by
    intro c hc _ hnone
    rw [mem_append, mem_sourcePathEntries, mem_torrentEntries] at hc
    unfold resolveSourcePathDirLookup at hnone
    split at hnone
    · cases hnone
    · next hsub =>
      rw [map_eq_none_iff, find?_eq_none] at hnone
      rcases hc with ⟨sub, hmem, rfl⟩ | ⟨r, hr, rfl⟩
      · exact hsub hmem
      · exact hnone r hr (by simp)

lemma resolves_landed {torrentId : ℕ} {parent : Option ℕ}
    (hfiles : FilesOwned names.torrents torrentId parent) :
    Resolves (resolveTorrentDirLookup names.torrents torrentId parent)
      (landedEntries names.torrents torrentId parent) where
  listed := by
    intro name e _ h
    unfold resolveTorrentDirLookup at h
    refine List.mem_append.mpr ?_
    split at h
    · next dirId hdir =>
      obtain ⟨contentId, hcontent, hdir⟩ := Option.bind_eq_some_iff.mp hdir
      cases h
      refine .inl (List.mem_map.mpr ⟨_, List.mem_filter.mpr
        ⟨FileTables.findDirectory_eq_some hdir, ?_⟩, rfl⟩)
      simp [hcontent]
    · obtain ⟨f, hfile, rfl⟩ := Option.map_eq_some_iff.mp h
      obtain ⟨contentId, hcontent, hfile⟩ := Option.bind_eq_some_iff.mp hfile
      have hf := find?_some hfile
      simp only [Bool.and_eq_true, beq_iff_eq] at hf
      obtain ⟨⟨rfl, rfl⟩, rfl⟩ := hf
      refine .inr (List.mem_map.mpr ⟨f, List.mem_filter.mpr
        ⟨mem_of_find?_eq_some hfile, ?_⟩, rfl⟩)
      simp [hcontent]
  found := by
    intro c hc hname hnone
    unfold resolveTorrentDirLookup at hnone
    split at hnone
    · cases hnone
    · next hdir =>
      rw [map_eq_none_iff, getTorrentFileByName] at hnone
      rw [getTorrentDirectory] at hdir
      rcases List.mem_append.mp hc with hc | hc
      · obtain ⟨d, hd, rfl⟩ := List.mem_map.mp hc
        obtain ⟨hrow, hcond⟩ := List.mem_filter.mp hd
        simp only [Bool.and_eq_true, decide_eq_true_eq] at hcond
        obtain ⟨hcontent, rfl⟩ := hcond
        rw [hcontent, bind_some, FileTables.findDirectory_eq_none] at hdir
        exact hdir d.id hrow
      · obtain ⟨f, hf, rfl⟩ := List.mem_map.mp hc
        obtain ⟨hf, hcond⟩ := List.mem_filter.mp hf
        simp only [Bool.and_eq_true, Bool.or_eq_true, decide_eq_true_eq] at hcond
        have hcontent : resolveContentId names.torrents torrentId = some f.torrentId :=
          hcond.2.elim (fun h => hfiles (Option.isSome_iff_ne_none.mp h) f hf hcond.1 hname) id
        rw [hcontent, bind_some, FileTables.findFile, find?_eq_none] at hnone
        exact hnone f hf (by simp [hcond.1])

lemma resolves_pending (sourcePath filename dirPath : Str) :
    Resolves (resolvePendingTorrentChildren hash m sourcePath filename dirPath)
      ((readdirPendingTorrent hash m sourcePath filename dirPath).getD []) where
  listed := by
    intro name e ⟨hne, hsep, _, _⟩ h
    obtain ⟨data, hdata, h⟩ := Option.bind_eq_some_iff.mp h
    obtain ⟨⟨root, files⟩, hfiles, h⟩ := Option.bind_eq_some_iff.mp h
    rw [mem_readdirPendingTorrent]
    refine ⟨files, by simp [pendingFilesOf, hdata, hfiles], mem_pendingEntries.mpr ?_⟩
    dsimp only at h
    rw [above_append] at h
    split at h
    · next hsub =>
      obtain ⟨f, hf, hpath⟩ := List.any_eq_true.mp hsub
      obtain ⟨rest, hpath⟩ := List.isPrefixOf_iff_prefix.mp hpath
      cases h
      rw [append_assoc, childPath_append] at hpath
      exact .inl ⟨name, not_mem_nil, hsep, ⟨f, hf, rest, hpath.symm⟩, rfl⟩
    · obtain ⟨f, hfind, rfl⟩ := Option.map_eq_some_iff.mp h
      have hpath : f.path = childPath dirPath name := by simpa using find?_some hfind
      exact .inr ⟨name, hne, hsep, f, mem_of_find?_eq_some hfind, hpath, by rw [← hpath]; rfl⟩
  found := by
    intro c hc _ hnone
    obtain ⟨files, hfiles, hc⟩ := mem_readdirPendingTorrent.mp hc
    obtain ⟨⟨root, _⟩, hdata, rfl⟩ := Option.map_eq_some_iff.mp hfiles
    obtain ⟨data, hfound, hdata⟩ := Option.bind_eq_some_iff.mp hdata
    simp only [resolvePendingTorrentChildren, hfound, hdata, bind_some, above_append] at hnone
    split at hnone
    · cases hnone
    · next hsub =>
      rw [map_eq_none_iff, find?_eq_none] at hnone
      rcases mem_pendingEntries.mp hc with
        ⟨name, -, -, ⟨f, hf, rest, hpath⟩, rfl⟩ | ⟨name, -, -, f, hf, hpath, rfl⟩
      · refine hsub (List.any_eq_true.mpr ⟨f, hf, List.isPrefixOf_iff_prefix.mpr ⟨rest, ?_⟩⟩)
        rw [hpath, append_assoc, childPath_append]
        rfl
      · exact hnone f hf (decide_eq_true hpath)

end Resolves

/-! ### The entry `..` -/

def numberOf (hash : List Str → ℕ) : Option DataInode → ℕ
  | none => dataIno
  | some (.sourcePathDir path) => makeSourcePathDirIno hash path
  | some (.torrentRoot torrentId sourcePath _ filename) =>
    if torrentId = 0 then makePendingTorrentIno hash sourcePath filename
    else makeTorrentRootIno torrentId
  | some (.torrentDir torrentId dirId _ dirPath sourcePath filename) =>
    if torrentId = 0 then makePendingTorrentDirIno hash sourcePath filename dirPath
    else makeTorrentDirIno dirId
  | some (.torrentFile ..) => 0

/-- A child whose `..` is the directory. A torrent in a source-path directory lists the directory
above that one, so it is right only if the two have one number. A directory whose path is empty is
not told from the directory above it. -/
def FindsParent (hash : List Str → ℕ) : Option DataInode → DataInode → Prop
  | some (.sourcePathDir path), .torrentRoot .. =>
    parentOfSourcePath hash path = makeSourcePathDirIno hash path
  | some (.sourcePathDir path), _ => path ≠ []
  | some (.torrentDir torrentId _ _ dirPath _ _), _ => torrentId = 0 → dirPath ≠ []
  | _, _ => True

/-- The second entry of a child's listing is the directory with the number `ino`. -/
def DotDotIs (hash : List Str → ℕ) (mgr : InodeManager) (names : NameTables)
    (keys : List (Str × Str)) (child ino : ℕ) : Prop :=
  (readdirData hash mgr names keys child).1.bind (·[1]?) = some ⟨ino, 2, .directory, "..".toList⟩

/-- The number of a child is cached as the directory lists it, and its `..` is the directory. -/
structure KnowsParent (hash : List Str → ℕ) (mgr : InodeManager) (d : Option DataInode)
    (c : ListedChild) : Prop where
  cached : dataDir mgr c.ino = some (some c.inode)
  finds : FindsParent hash d c.inode

section DotDot

variable {hash : List Str → ℕ} {m : FinMap ℕ InodeData} {names : NameTables}
  {keys : List (Str × Str)} {d : Option DataInode} {path : Str} {c : ListedChild}

lemma exists_of_mem_prefixes {t : DirectoryTable} {sub : Str}
    (h : sub ∈ getSourcePathPrefixes t path) : ∃ r ∈ t.rows, r.name = sub := by
  unfold getSourcePathPrefixes at h
  split at h
  · grind
  split at h <;> grind

lemma parentOfSourcePath_childPath {sub : Str} (hsub : '/' ∉ sub) :
    parentOfSourcePath hash (childPath path sub) =
      if path = [] then dataIno else makeSourcePathDirIno hash path := by
  unfold parentOfSourcePath childPath
  by_cases hpath : path = []
  · rw [if_pos hpath, if_pos hpath, rsplitOnce_of_notMem hsub]
  · rw [if_neg hpath, if_neg hpath, rsplitOnce_append path hsub]

lemma sourcePathDir_ne_dataIno : makeSourcePathDirIno hash path ≠ dataIno := by
  simp only [makeSourcePathDirIno, hashedIno, sourcePathDirInoBase, dataIno]
  omega

lemma inode_of_mem_holder (hpath : sourcePathOf d = some path)
    (hc : c ∈ recorded hash m names d ++ underway hash m names keys d) :
    (∃ sub ∈ getSourcePathPrefixes names.directories path,
      c.inode = .sourcePathDir (childPath path sub)) ∨
    ∃ torrentId name filename, c.inode = .torrentRoot torrentId path name filename := by
  rw [mem_append, mem_recorded hpath, mem_sourcePathEntries, mem_torrentEntries,
    mem_underway hpath] at hc
  rcases hc with (⟨sub, hsub, rfl⟩ | ⟨r, hr, rfl⟩) | ⟨filename, -, -, rfl⟩
  · exact .inl ⟨sub, hsub, rfl⟩
  · exact .inr ⟨_, _, _, by rw [sourcePath_of_mem hr]⟩
  · exact .inr ⟨_, _, _, rfl⟩

lemma dotDot_of_landed {t : ℕ} {parent : Option ℕ} (hid : t ≠ 0)
    (hc : c ∈ landedEntries names.torrents t parent) (hkind : c.kind = .directory) :
    dotDot hash names (some c.inode) =
      (parent.map makeTorrentDirIno).getD (makeTorrentRootIno t) := by
  rcases List.mem_append.mp hc with hc | hc
  · obtain ⟨r, hr, rfl⟩ := List.mem_map.mp hc
    obtain ⟨hr, hparent⟩ := List.mem_filter.mp hr
    have hget : names.torrents.files.directories.get? r.id = some r :=
      Sql.AutoTable.get?_eq_some.mpr ⟨hr, rfl⟩
    simp only [Bool.and_eq_true, decide_eq_true_eq] at hparent
    obtain ⟨-, rfl⟩ := hparent
    simp only [dotDot, if_neg hid, parentOfTorrentDir, hget, bind_some]
    cases r.parentId <;> rfl
  · obtain ⟨f, -, rfl⟩ := List.mem_map.mp hc
    cases hkind

lemma dotDot_of_pending {sourcePath filename dirPath : Str}
    (hc : c ∈ (readdirPendingTorrent hash m sourcePath filename dirPath).getD [])
    (hkind : c.kind = .directory) : dotDot hash names (some c.inode) =
      if dirPath = [] then makePendingTorrentIno hash sourcePath filename
      else makePendingTorrentDirIno hash sourcePath filename dirPath := by
  obtain ⟨files, -, hc⟩ := mem_readdirPendingTorrent.mp hc
  rcases mem_pendingEntries.mp hc with ⟨name, -, hname, -, rfl⟩ | ⟨name, -, -, f, -, -, rfl⟩
  · simp only [pendingDirChild, dotDot, if_pos, parentOfPendingDir, childPath]
    by_cases hdir : dirPath = []
    · rw [if_pos hdir, if_pos hdir, rsplitOnce_of_notMem hname]
    · rw [if_neg hdir, if_neg hdir, rsplitOnce_append dirPath hname]
  · cases hkind

lemma dotDot_eq_numberOf_iff (hnames : ∀ r ∈ names.directories.rows, '/' ∉ r.name)
    (hc : c ∈ recorded hash m names d ++ underway hash m names keys d)
    (hkind : c.kind = .directory) :
    dotDot hash names (some c.inode) = numberOf hash d ↔ FindsParent hash d c.inode := by
  cases d with
  | none =>
    rcases inode_of_mem_holder rfl hc with ⟨sub, hsub, hinode⟩ | ⟨_, _, _, hinode⟩
    · obtain ⟨r, hr, rfl⟩ := exists_of_mem_prefixes hsub
      simp [hinode, dotDot, numberOf, FindsParent, parentOfSourcePath_childPath (hnames r hr)]
    · rw [hinode]
      exact iff_of_true rfl trivial
  | some d =>
    cases d with
    | sourcePathDir path =>
      rcases inode_of_mem_holder rfl hc with ⟨sub, hsub, hinode⟩ | ⟨_, _, _, hinode⟩
      · obtain ⟨r, hr, rfl⟩ := exists_of_mem_prefixes hsub
        by_cases hpath : path = []
        · simp [hinode, dotDot, numberOf, FindsParent, parentOfSourcePath_childPath (hnames r hr),
            hpath, sourcePathDir_ne_dataIno.symm]
        · simp [hinode, dotDot, numberOf, FindsParent, parentOfSourcePath_childPath (hnames r hr),
            hpath]
      · rw [hinode]
        exact Iff.rfl
    | torrentRoot torrentId sourcePath name filename =>
      rw [underway_eq_nil rfl, append_nil, recorded] at hc
      refine iff_of_true ?_ trivial
      by_cases hid : torrentId = 0
      · rw [if_pos hid] at hc
        simp [dotDot_of_pending hc hkind, numberOf, hid]
      · rw [if_neg hid] at hc
        simp [dotDot_of_landed hid hc hkind, numberOf, hid]
    | torrentDir torrentId dirId name dirPath sourcePath filename =>
      rw [underway_eq_nil rfl, append_nil, recorded] at hc
      by_cases hid : torrentId = 0
      · rw [if_pos hid] at hc
        rw [dotDot_of_pending hc hkind]
        by_cases hdir : dirPath = []
        · simp only [numberOf, FindsParent, hid, hdir, if_pos, makePendingTorrentIno,
            makePendingTorrentDirIno, hashedIno, pendingTorrentInoBase, pendingTorrentDirInoBase]
          -- the numbers of roots end where those of directories start
          simp
          omega
        · simp [numberOf, FindsParent, hid, hdir]
      · rw [if_neg hid] at hc
        simp [dotDot_of_landed hid hc hkind, numberOf, FindsParent, hid]
    | torrentFile => simp [recorded, underway, sourcePathOf] at hc

lemma kind_of_dataDir {mgr : InodeManager} {n : ℕ} (h : dataDir mgr n = some (some c.inode)) :
    c.kind = .directory := by
  obtain ⟨-, hnone⟩ | ⟨-, d, hd, -, hfile⟩ := dataDir_cases h
  · cases hnone
  · cases hd
    unfold ListedChild.kind
    split
    · next heq => exact absurd heq (hfile _ _ _ _ _ _)
    · rfl

end DotDot

def oneDirectory : NameTables where
  torrents := TorrentTables.empty
  directories := ⟨[⟨1, none, "d".toList, "d".toList⟩], 1, by decide, by decide⟩

def addTorrentInDirectory : List FsAction :=
  [.mkdir FsService.noFaults metadataIno "d".toList, .create firstIno "a.torrent".toList,
    .write (firstIno + 1) 0 (Bencode.encode multiValue), .release FsService.noFaults 1]

end TorrentFs.Fuse
