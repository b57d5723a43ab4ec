import Mathlib.Data.Finset.Max
import TorrentFs.Db.Migrations

/-!
# Restarting an interrupted migration

A run of the migrations may stop after any of its commits. The module settles for each stop
whether the next run, which starts from the version number found in the file, ends in the state
an uninterrupted run ends in.
-/

namespace TorrentFs.Db

open Text Commits List Option

lemma requireTable_eq_ok {α : Type} {o : Option α} {t : α} :
    requireTable o = .ok t ↔ o = some t := by
  cases o <;> simp [requireTable]

namespace Database

variable {sqlite : Sqlite}

/-! ### Version 5 -/

variable {db db' : Database} {rows : List Torrent}

lemma deleteChildren_eq_ok {orphan : ℕ → Bool} (h : db.deleteChildren orphan = .ok db') :
    ∃ dirs closure files, db.torrentDirectories = some dirs ∧ db.directoryClosure = some closure ∧
      db.torrentFiles = some files ∧
      db' = { db with
        directoryClosure := db'.directoryClosure
        torrentDirectories := some (dirs.filter fun d => !orphan d.torrentId)
        torrentFiles := some { files with
          rows := files.rows.filter fun f => !orphan f.torrentId } } ∧
      db'.directoryClosure.isSome := by
  simp only [deleteChildren, bind_eq_ok, requireTable_eq_ok, pure, Except.pure,
    Except.ok.injEq] at h
  obtain ⟨dirs, hdirs, closure, hclosure, files, hfiles, rfl⟩ := h
  exact ⟨dirs, closure, files, hdirs, hclosure, hfiles, rfl, rfl⟩

lemma deleteChildren_of_none {orphan : ℕ → Bool}
    (hdirs : db.torrentDirectories.isSome) (hclosure : db.directoryClosure.isSome)
    (hfiles : db.torrentFiles.isSome) (h : ∀ id, orphan id = false) :
    db.deleteChildren orphan = .ok db := by
  obtain ⟨version, torrents, sources, dirs, closure, files, metadata, indexes⟩ := db
  obtain ⟨dirs, rfl⟩ := Option.isSome_iff_exists.mp hdirs
  obtain ⟨closure, rfl⟩ := Option.isSome_iff_exists.mp hclosure
  obtain ⟨files, rfl⟩ := Option.isSome_iff_exists.mp hfiles
  simp [deleteChildren, requireTable, h, bind, Except.bind, pure, Except.pure]

lemma isRetained_filter {id : ℕ} (h : isRetained rows id = true) :
    isRetained (rows.filter fun t => isRetained rows t.id) id = true := by
  simp only [isRetained, List.any_eq_true, List.all_eq_true, Bool.and_eq_true,
    decide_eq_true_eq] at h
  obtain ⟨u, hu, hid, hmax⟩ := h
  have hkept : isRetained rows u.id = true := by
    simp only [isRetained, List.any_eq_true, List.all_eq_true, Bool.and_eq_true,
      decide_eq_true_eq]
    exact ⟨u, hu, rfl, hmax⟩
  -- the newest row of its group is still there, and the groups have only become smaller
  rw [isRetained, List.any_eq_true]
  refine ⟨u, List.mem_filter.mpr ⟨hu, hkept⟩, ?_⟩
  simp only [List.all_eq_true, Bool.and_eq_true, decide_eq_true_eq]
  exact ⟨hid, fun w hw => hmax w (mem_of_mem_filter hw)⟩

/-- What the fifth migration leaves. -/
structure V5Done (db db' : Database) : Prop where
  version : db'.userVersion = db.userVersion
  metadata : db'.metadata = db.metadata
  sources : db'.torrentSources = db.torrentSources
  dirs : db'.torrentDirectories.isSome
  closure : db'.directoryClosure.isSome
  files : db'.torrentFiles.isSome
  torrents : ∃ t, db.torrents = some t ∧
    db'.torrents = some ⟨v5Columns, t.rows.filter fun u => isRetained t.rows u.id⟩

lemma v5Done_of_ok (h : migrateV5 db = .ok db') : V5Done db db' := by
  simp only [migrateV5, bind_eq_ok, requireTable_eq_ok] at h
  obtain ⟨t, ht, h⟩ := h
  split at h
  · simp only [bind_eq_ok, pure, Except.pure, Except.ok.injEq] at h
    obtain ⟨mid, hmid, rfl⟩ := h
    obtain ⟨dirs, closure, files, -, -, -, heq, hclosure⟩ := deleteChildren_eq_ok hmid
    refine ⟨?_, ?_, ?_, ?_, hclosure, ?_, t, ht, rfl⟩ <;> rw [heq] <;> rfl
  · cases h

lemma migrateV5_idem (h : migrateV5 db = .ok db') : migrateV5 db' = .ok db' := by
  have hdone := v5Done_of_ok h
  obtain ⟨t, -, ht⟩ := hdone.torrents
  set rows := t.rows.filter fun u => isRetained t.rows u.id with hrows
  have hkept : ∀ u ∈ rows, isRetained rows u.id = true := fun u hu =>
    isRetained_filter (List.mem_filter.mp hu).2
  have horphan : ∀ id, (rows.any (fun u => u.id = id) && !isRetained rows id) = false := by
    intro id
    rw [Bool.and_eq_false_iff, Bool.not_eq_false']
    by_cases hid : rows.any (fun u => u.id = id) = true
    · obtain ⟨u, hu, huid⟩ := List.any_eq_true.mp hid
      exact .inr (by simpa [of_decide_eq_true huid] using hkept u hu)
    · exact .inl (by simpa using hid)
  have hdelete := deleteChildren_of_none hdone.dirs hdone.closure hdone.files horphan
  rw [migrateV5, ht, requireTable]
  simp only [bind, Except.bind, subset_rfl, if_true, hdelete, pure, Except.pure,
    List.filter_eq_self.mpr hkept, Except.ok.injEq]
  rw [← ht]

lemma exists_retained {t : Torrent} (ht : t ∈ rows) :
    ∃ u ∈ rows, isRetained rows u.id = true ∧ u.sourcePath = t.sourcePath := by
  let group := rows.toFinset.filter fun u => u.sourcePath = t.sourcePath ∧ u.filename = t.filename
  have hgroup : group.Nonempty := ⟨t, by simp [group, ht]⟩
  obtain ⟨u, hu, hmax⟩ := group.exists_max_image Torrent.id hgroup
  obtain ⟨hmem, hpath, hname⟩ : u ∈ rows ∧ u.sourcePath = t.sourcePath ∧
      u.filename = t.filename := by simpa [group] using hu
  refine ⟨u, hmem, ?_, hpath⟩
  simp only [isRetained, List.any_eq_true, List.all_eq_true, Bool.and_eq_true, decide_eq_true_eq]
  refine ⟨u, hmem, rfl, fun w hw => ?_⟩
  by_cases hsame : w.sourcePath = u.sourcePath ∧ w.filename = u.filename
  · refine .inr (hmax w ?_)
    simp [group, hw, hsame.1, hsame.2, hpath, hname]
  · exact .inl hsame

lemma mem_sourcePaths_of_v5Done (h : V5Done db db') (p : Str) :
    p ∈ db'.sourcePaths ↔ p ∈ db.sourcePaths := by
  obtain ⟨t, ht, ht'⟩ := h.torrents
  rw [sourcePaths, sourcePaths, ht, ht']
  simp only [map_some, getD_some, List.mem_map, mem_filter]
  constructor
  · rintro ⟨u, ⟨hu, -⟩, rfl⟩
    exact ⟨u, hu, rfl⟩
  · rintro ⟨u, hu, rfl⟩
    obtain ⟨w, hw, hkept, hpath⟩ := exists_retained hu
    exact ⟨w, ⟨hw, hkept⟩, hpath⟩

/-! ### Version 6 -/

lemma sources_foldl_splitRow (rows : List Torrent) (s : Split) :
    (rows.foldl (splitRow sqlite) s).sources.map TorrentSource.sourcePath =
      s.sources.map TorrentSource.sourcePath ++ rows.map Torrent.sourcePath := by
  induction rows generalizing s with
  | nil => simp
  | cons t rows ih =>
    rw [foldl_cons, ih]
    simp [splitRow]

/-- What the sixth migration leaves. -/
structure V6Done (db db' : Database) : Prop where
  version : db'.userVersion = db.userVersion
  metadata : db'.metadata = db.metadata
  columns : ∃ rows, db'.torrents = some ⟨v6Columns, rows⟩
  sources : ∃ sources, db'.torrentSources = some sources ∧
    sources.map TorrentSource.sourcePath = db.sourcePaths

lemma v6Done_of_ok (h : migrateV6 sqlite db = .ok db') : V6Done db db' := by
  simp only [migrateV6, bind_eq_ok, requireTable_eq_ok] at h
  obtain ⟨t, ht, h⟩ := h
  split at h
  · cases h
  split at h
  · cases h
  split at h
  · cases h
  simp only [bind_eq_ok, requireTable_eq_ok, pure, Except.pure, Except.ok.injEq] at h
  obtain ⟨mid, hmid, dirs, -, files, -, dirs', -, files', -, rfl⟩ := h
  obtain ⟨_, _, _, -, -, -, hmid', -⟩ := deleteChildren_eq_ok hmid
  refine ⟨by rw [hmid'], by rw [hmid'], ⟨_, rfl⟩, _, rfl, ?_⟩
  rw [sources_foldl_splitRow, sourcePaths, ht]
  rfl

lemma migrateV6_of_split (h : db.torrents = some ⟨v6Columns, rows⟩) :
    migrateV6 sqlite db = .error .noSuchColumn := by
  have hcolumns : ¬ v5Columns ⊆ v6Columns := by decide
  rw [migrateV6, h, requireTable]
  simp only [bind, Except.bind, hcolumns, not_false_eq_true, if_true]

/-! ### The first transaction -/

lemma baseTransaction_of_le (h : 4 ≤ db.userVersion) : db.baseTransaction = .ok db := by
  have h1 : ¬ db.userVersion < 1 := by omega
  have h2 : db.userVersion ≠ 1 := by omega
  have h3 : ¬ db.userVersion < 3 := by omega
  have h4 : ¬ db.userVersion < 4 := by omega
  simp [baseTransaction, toVersion2, h1, h2, h3, h4, bind, Except.bind]

lemma addColumn_eq_ok {κ ρ : Type} [DecidableEq κ] {t t' : Table κ ρ} {column : κ}
    {setDefault : ρ → ρ} (h : t.addColumn column setDefault = .ok t') :
    t'.rows = t.rows.map setDefault := by
  rw [Table.addColumn] at h
  split at h
  · cases h
  · cases h
    rfl

lemma migrateV2_eq_ok (h : db.migrateV2 = .ok db') :
    db'.metadata = db.metadata ∧ db'.sourcePaths = db.sourcePaths := by
  simp only [migrateV2, bind_eq_ok, requireTable_eq_ok, pure, Except.pure, Except.ok.injEq] at h
  obtain ⟨t, ht, t₁, h₁, t₂, h₂, t₃, h₃, t₄, h₄, -, -, -, -, -, -, -, -, rfl⟩ := h
  refine ⟨rfl, ?_⟩
  simp only [sourcePaths, ht, map_some, getD_some, addColumn_eq_ok h₄,
    addColumn_eq_ok h₃, addColumn_eq_ok h₂, addColumn_eq_ok h₁, List.map_map]
  rfl

lemma migrateV4_eq_ok (h : db.migrateV4 = .ok db') :
    db'.metadata = db.metadata ∧ db'.sourcePaths = db.sourcePaths := by
  simp only [migrateV4, bind_eq_ok, requireTable_eq_ok, pure, Except.pure, Except.ok.injEq] at h
  obtain ⟨t, ht, t₁, h₁, rfl⟩ := h
  refine ⟨rfl, ?_⟩
  simp only [sourcePaths, ht, map_some, getD_some, addColumn_eq_ok h₁, List.map_map]
  rfl

lemma sourcePaths_migrateV1 (db : Database) : db.migrateV1.sourcePaths = db.sourcePaths := by
  rw [sourcePaths, sourcePaths, migrateV1]
  cases db.torrents <;> rfl

lemma version_baseTransaction (hv : db.userVersion < 5)
    (h : db.baseTransaction = .ok db') : db'.userVersion = 4 := by
  by_cases hv4 : 4 ≤ db.userVersion
  · cases (baseTransaction_of_le hv4).symm.trans h
    omega
  replace hv : db.userVersion < 4 := by omega
  simp only [baseTransaction, bind_eq_ok, hv, if_true, map_eq_ok] at h
  obtain ⟨-, -, u, -, rfl⟩ := h
  rfl

lemma baseTransaction_of_lt (hwf : db.WellFormed) (hv : db.userVersion < 3)
    (h : db.baseTransaction = .ok db') :
    db'.metadata = some ⟨[], []⟩ ∧ db'.sourcePaths = db.sourcePaths := by
  have hv4 : db.userVersion < 4 := by omega
  simp only [baseTransaction, bind_eq_ok, hv, hv4, if_true, map_eq_ok] at h
  obtain ⟨mid, hmid, u, hu, rfl⟩ := h
  have hmid' : mid.metadata = none ∧ mid.sourcePaths = db.sourcePaths := by
    rw [toVersion2] at hmid
    split at hmid
    · cases hmid
      exact ⟨hwf hv, sourcePaths_migrateV1 db⟩
    split at hmid
    · obtain ⟨w, hw, rfl⟩ := map_eq_ok.mp hmid
      obtain ⟨hmeta, hpaths⟩ := migrateV2_eq_ok hw
      exact ⟨hmeta.trans (hwf hv), hpaths⟩
    · cases hmid
      exact ⟨hwf hv, rfl⟩
  obtain ⟨hmeta, hpaths⟩ := migrateV4_eq_ok hu
  refine ⟨?_, hpaths.trans hmid'.2⟩
  rw [show (setVersion 4 u).metadata = u.metadata from rfl, hmeta]
  rw [show (setVersion 3 mid.migrateV3).metadata = some (mid.metadata.getD ⟨[], []⟩) from rfl,
    hmid'.1]
  rfl

end Database

/-! ### Creating metadata directories -/

namespace MetadataTables

def size (m : MetadataTables) : ℕ := m.directories.length + m.closure.length

/-- Every directory has a row in the closure that names it as descendant. -/
def Closed (m : MetadataTables) : Prop :=
  ∀ d ∈ m.directories, ∃ c ∈ m.closure, c.descendantId = d.id

/-- The directory a new one is created in is in the closure. -/
def HasParent (m : MetadataTables) (parentId : Option ℕ) : Prop :=
  ∀ p, parentId = some p → ∃ c ∈ m.closure, c.descendantId = p

variable {m : MetadataTables}

lemma createDirectory_grows {parentId : Option ℕ} (hclosed : m.Closed)
    (hparent : m.HasParent parentId) (name path : Str) :
    let states := m.createDirectory parentId name path
    Grows size m states ∧ (states.getLastD m).Closed ∧
      (states.getLastD m).HasParent (some m.nextId) := by
  -- the row of the directory itself is in the closure from the second statement on
  let m₁ := m.insertDirectory ⟨m.nextId, parentId, name, path⟩
  let m₂ := m₁.insertSelf m.nextId
  have hself : (⟨m.nextId, m.nextId, 0⟩ : Closure) ∈ m₂.closure := by
    simp [m₂, insertSelf]
  have hsub : ∀ c ∈ m.closure, c ∈ m₂.closure := fun c hc => by
    simp [m₂, m₁, insertSelf, insertDirectory, hc]
  have hclosed₂ : m₂.Closed := by
    intro d hd
    simp only [m₂, m₁, insertSelf, insertDirectory, mem_append, mem_singleton] at hd
    rcases hd with hd | rfl
    · obtain ⟨c, hc, hcd⟩ := hclosed d hd
      exact ⟨c, hsub c hc, hcd⟩
    · exact ⟨_, hself, rfl⟩
  have h₁ : size m < size m₁ := by simp [size, m₁, insertDirectory]
  have h₂ : size m₁ < size m₂ := by simp [size, m₂, insertSelf]
  cases parentId with
  | none =>
    refine ⟨?_, hclosed₂, fun p hp => ?_⟩
    · exact .cons_cons h₁ (.cons_cons h₂ (.singleton _))
    · cases hp
      exact ⟨_, hself, rfl⟩
  | some p =>
    let m₃ := m₂.insertAncestors m.nextId p
    have hsub₃ : ∀ c ∈ m₂.closure, c ∈ m₃.closure := fun c hc => by
      simp [m₃, insertAncestors, hc]
    -- the parent is in the closure, so it has at least one ancestor: itself
    have h₃ : size m₂ < size m₃ := by
      obtain ⟨c, hc, hcp⟩ := hparent p rfl
      have hmem : c ∈ m₂.closure.filter fun c => c.descendantId = p :=
        List.mem_filter.mpr ⟨hsub c hc, by simpa using hcp⟩
      have hpos := length_pos_of_mem hmem
      simp only [size, m₃, insertAncestors, length_append, length_map]
      omega
    refine ⟨?_, fun d hd => ?_, fun q hq => ?_⟩
    · exact .cons_cons h₁ (.cons_cons h₂ (.cons_cons h₃ (.singleton _)))
    · obtain ⟨c, hc, hcd⟩ := hclosed₂ d hd
      exact ⟨c, hsub₃ c hc, hcd⟩
    · cases hq
      exact ⟨_, hsub₃ _ hself, rfl⟩

lemma ensureParts_grows (hclosed : m.Closed) (parentId : Option ℕ)
    (hparent : m.HasParent parentId) (currentPath : Str) (parts : List Str) :
    let states := ensureParts currentPath parentId parts m
    Grows size m states ∧ (states.getLastD m).Closed := by
  induction parts generalizing m parentId currentPath with
  | nil => exact ⟨.singleton _, hclosed⟩
  | cons part rest ih =>
    rw [ensureParts]
    split
    · rename_i d hfind
      refine ih hclosed _ (fun p hp => ?_) _
      cases hp
      exact hclosed d (mem_of_find?_eq_some hfind)
    · obtain ⟨hgrows, hlast, hnew⟩ := createDirectory_grows hclosed hparent part
        (if currentPath = [] then part else currentPath ++ '/' :: part)
      obtain ⟨hgrows', hlast'⟩ := ih hlast _ hnew
        (if currentPath = [] then part else currentPath ++ '/' :: part)
      refine ⟨hgrows.append hgrows', ?_⟩
      rw [getLastD_append]
      exact hlast'

lemma ensureAll_grows (hclosed : m.Closed) (paths : List Str) :
    Grows size m (ensureAll paths m) := by
  induction paths generalizing m with
  | nil => exact .singleton _
  | cons path rest ih =>
    obtain ⟨hgrows, hlast⟩ :=
      ensureParts_grows hclosed none (fun p hp => nomatch hp) [] (pathParts path)
    exact hgrows.append (ih hlast)

lemma ensureAll_eq_nil_iff (paths : List Str) :
    ensureAll paths ⟨[], []⟩ = [] ↔ ∀ p ∈ paths, pathParts p = [] := by
  induction paths with
  | nil => simp [ensureAll]
  | cons path rest ih =>
    have hpath : ensureMetadataDirectories path ⟨[], []⟩ = [] ↔ pathParts path = [] := by
      rw [ensureMetadataDirectories]
      cases pathParts path with
      | nil => simp [ensureParts]
      | cons part parts => simp [ensureParts, createDirectory]
    rw [ensureAll, forall_mem_cons, ← hpath, ← ih]
    constructor
    · intro h
      obtain ⟨h₁, h₂⟩ := List.append_eq_nil_iff.mp h
      rw [h₁] at h₂
      exact ⟨h₁, h₂⟩
    · rintro ⟨h₁, h₂⟩
      rw [h₁]
      exact h₂

end MetadataTables

namespace Database

variable {sqlite : Sqlite}

/-! ### The end of a run -/

def finishSteps : List (Step Database DbError MigrationStep) :=
  [once .indexFiles (createIndex .torrentFilesDirName),
    once .indexDirs (createIndex .torrentDirsTorrentParentName),
    once .version7 fun db => .ok (db.setVersion 7)]

def splitSteps (sqlite : Sqlite) : List (Step Database DbError MigrationStep) :=
  [once .v6 (migrateV6 sqlite), once .version6 fun db => .ok (db.setVersion 6)]

def upgradeSteps (sqlite : Sqlite) : List (Step Database DbError MigrationStep) :=
  once .v5 migrateV5 :: once .version5 (fun db => .ok (db.setVersion 5)) :: splitSteps sqlite

def finished (db : Database) : Database :=
  { db with
    indexes := insert .torrentDirsTorrentParentName (insert .torrentFilesDirName db.indexes)
    userVersion := 7 }

def HasTables (db : Database) : Prop := ∀ index, db.hasIndexedTable index = true

def withIndex (index : LookupIndex) (db : Database) : Database :=
  { db with indexes := insert index db.indexes }

lemma createIndex_of_hasTables (db : Database) (h : db.HasTables) (index : LookupIndex) :
    createIndex index db = .ok (db.withIndex index) := by
  rw [createIndex, if_pos (h index)]
  rfl

variable {db f t : Database} {v left : ℕ} {step : MigrationStep} {m : MetadataTables}

lemma createIndex_eq_ok {index : LookupIndex} {db' : Database}
    (h : createIndex index db = .ok db') :
    db.hasIndexedTable index = true ∧ db' = db.withIndex index := by
  rw [createIndex] at h
  split at h
  · cases h
    exact ⟨by assumption, rfl⟩
  · cases h

lemma run_finishSteps_of_hasTables (h : db.HasTables) : run finishSteps db = .ok db.finished := by
  refine run_once_eq_ok.mpr ⟨_, createIndex_of_hasTables db h _, ?_⟩
  exact run_once_eq_ok.mpr ⟨_, createIndex_of_hasTables (db.withIndex _) h _, rfl⟩

lemma run_finishSteps (h : run finishSteps db = .ok f) : db.HasTables ∧ f = db.finished := by
  obtain ⟨db₁, h₁, hrest⟩ := run_once_eq_ok.mp h
  obtain ⟨db₂, h₂, -⟩ := run_once_eq_ok.mp hrest
  obtain ⟨hfiles, rfl⟩ := createIndex_eq_ok h₁
  have htables : db.HasTables := fun index => by
    cases index with
    | torrentFilesDirName => exact hfiles
    | torrentDirsTorrentParentName => exact (createIndex_eq_ok h₂).1
  exact ⟨htables, Except.ok.inj (h.symm.trans (run_finishSteps_of_hasTables htables))⟩

/-! ### The run from each version -/

lemma steps_of_version7 (h : 7 ≤ v) : steps sqlite v = [once .base baseTransaction] := by
  simp [steps, Nat.not_lt.mpr h]
  omega

lemma steps_of_version4 (h : 3 ≤ v) (h' : v < 5) :
    steps sqlite v = once .base baseTransaction :: (upgradeSteps sqlite ++ finishSteps) := by
  simp [steps, upgradeSteps, splitSteps, finishSteps, h', Nat.not_lt.mpr h,
    (by omega : v < 6), (by omega : v < 7)]

lemma steps_of_version3 (h : v < 3) : steps sqlite v = once .base baseTransaction ::
      (upgradeSteps sqlite ++ ⟨.backfill, backfill sqlite⟩ :: finishSteps) := by
  simp [steps, upgradeSteps, splitSteps, finishSteps, h, (by omega : v < 5), (by omega : v < 6),
    (by omega : v < 7)]

lemma run_base (h : 4 ≤ db.userVersion) (ps : List (Step Database DbError MigrationStep)) :
    run (once .base baseTransaction :: ps) db = run ps db := by
  simp [run, once, baseTransaction_of_le h, Except.map]

lemma runMigrations_of_version7 (h : 7 ≤ db.userVersion) : runMigrations sqlite db = .ok db := by
  rw [runMigrations, steps_of_version7 h, run_base (by omega)]
  rfl

lemma runMigrations_of_version6 (h : db.userVersion = 6) :
    runMigrations sqlite db = run finishSteps db := by
  rw [runMigrations, h]
  exact run_base (by omega) _

lemma runMigrations_of_version5 (h : db.userVersion = 5) :
    runMigrations sqlite db = run (splitSteps sqlite ++ finishSteps) db := by
  rw [runMigrations, h]
  exact run_base (by omega) _

lemma runMigrations_of_version4 (h : db.userVersion = 4) :
    runMigrations sqlite db = run (upgradeSteps sqlite ++ finishSteps) db := by
  rw [runMigrations, h]
  exact run_base (by omega) _

/-! ### Stops that do not concern the metadata directories -/

/-- What a run does after a stop: it fails after the commit of version 6, and else it ends in
`f`. -/
def Resumes (sqlite : Sqlite) (f : Database) (step : MigrationStep) (t : Database) : Prop :=
  (step ≠ .v6 → runMigrations sqlite t = .ok f) ∧
    (step = .v6 → ∀ g, runMigrations sqlite t ≠ .ok g)

lemma Resumes.iff (h : Resumes sqlite f step t) : runMigrations sqlite t = .ok f ↔ step ≠ .v6 :=
  ⟨fun hrun hstep => h.2 hstep f hrun, h.1⟩

lemma finished_withIndex (db : Database) (index : LookupIndex) :
    (db.withIndex index).finished = db.finished := by
  cases index <;> simp [finished, withIndex, Finset.insert_comm]

lemma runMigrations_finished (db : Database) (hv : db.userVersion = 6) (h : db.HasTables) :
    runMigrations sqlite db = .ok db.finished := by
  rw [runMigrations_of_version6 hv, run_finishSteps_of_hasTables h]

lemma resumes_finish (hv : db.userVersion = 6)
    (h : run finishSteps db = .ok f) (hs : ((step, left), t) ∈ Commits.stops finishSteps db) :
    Resumes sqlite f step t := by
  obtain ⟨htables, rfl⟩ := run_finishSteps h
  obtain ⟨db₁, h₁, hs⟩ := mem_stops_once hs
  obtain ⟨-, rfl⟩ := createIndex_eq_ok h₁
  rcases hs with ⟨⟨⟩, rfl⟩ | hs
  · refine ⟨fun _ => ?_, fun hstep => nomatch hstep⟩
    rw [← finished_withIndex db]
    exact runMigrations_finished _ hv htables
  obtain ⟨db₂, h₂, hs⟩ := mem_stops_once hs
  obtain ⟨-, rfl⟩ := createIndex_eq_ok h₂
  rcases hs with ⟨⟨⟩, rfl⟩ | hs
  · refine ⟨fun _ => ?_, fun hstep => nomatch hstep⟩
    rw [← finished_withIndex db, ← finished_withIndex (db.withIndex _)]
    exact runMigrations_finished _ hv htables
  obtain ⟨_, ⟨⟩, ⟨⟨⟩, rfl⟩ | hs⟩ := mem_stops_once hs
  · exact ⟨fun _ => runMigrations_of_version7 (Nat.le_refl 7), fun hstep => nomatch hstep⟩
  · cases hs

lemma resumes_split (hv : db.userVersion = 5)
    (h : run (splitSteps sqlite ++ finishSteps) db = .ok f)
    (hs : ((step, left), t) ∈ Commits.stops (splitSteps sqlite ++ finishSteps) db) :
    Resumes sqlite f step t := by
  obtain ⟨db₆, h₆, hrest⟩ := run_once_eq_ok.mp h
  obtain ⟨_, ⟨⟩, hfinish⟩ := run_once_eq_ok.mp hrest
  have hdone := v6Done_of_ok h₆
  obtain ⟨_, h₆', ⟨⟨⟩, rfl⟩ | hs⟩ := mem_stops_once hs
  · -- the table of torrents has been split, but the version number says it has not
    cases h₆.symm.trans h₆'
    refine ⟨fun hstep => absurd rfl hstep, fun _ g hg => ?_⟩
    obtain ⟨rows, hrows⟩ := hdone.columns
    rw [runMigrations_of_version5 (hdone.version.trans hv)] at hg
    obtain ⟨_, hagain, -⟩ := run_once_eq_ok.mp hg
    rw [migrateV6_of_split hrows] at hagain
    cases hagain
  cases h₆.symm.trans h₆'
  obtain ⟨_, ⟨⟩, ⟨⟨⟩, rfl⟩ | hs⟩ := mem_stops_once hs
  · refine ⟨fun _ => ?_, fun hstep => nomatch hstep⟩
    rw [runMigrations_of_version6 rfl]
    exact hfinish
  · exact resumes_finish rfl hfinish hs

lemma resumes_upgrade (hv : db.userVersion = 4)
    (h : run (upgradeSteps sqlite ++ finishSteps) db = .ok f)
    (hs : ((step, left), t) ∈ Commits.stops (upgradeSteps sqlite ++ finishSteps) db) :
    Resumes sqlite f step t := by
  obtain ⟨db₅, h₅, hrest⟩ := run_once_eq_ok.mp h
  obtain ⟨_, ⟨⟩, hsplit⟩ := run_once_eq_ok.mp hrest
  obtain ⟨_, h₅', ⟨⟨⟩, rfl⟩ | hs⟩ := mem_stops_once hs
  · -- the version 5 migration is made again, on its own result
    cases h₅.symm.trans h₅'
    refine ⟨fun _ => ?_, fun hstep => nomatch hstep⟩
    rw [runMigrations_of_version4 ((v5Done_of_ok h₅).version.trans hv)]
    exact run_once_eq_ok.mpr ⟨_, migrateV5_idem h₅, hrest⟩
  cases h₅.symm.trans h₅'
  obtain ⟨_, ⟨⟩, ⟨⟨⟩, rfl⟩ | hs⟩ := mem_stops_once hs
  · refine ⟨fun _ => ?_, fun hstep => nomatch hstep⟩
    rw [runMigrations_of_version5 rfl]
    exact hsplit
  · exact resumes_split rfl hsplit hs

lemma run_upgradeSteps {u : Database} (h : run (upgradeSteps sqlite) db = .ok u) :
    u.userVersion = 6 ∧ u.metadata = db.metadata ∧ ∃ sources, u.torrentSources = some sources ∧
      ∀ p, p ∈ sources.map TorrentSource.sourcePath ↔ p ∈ db.sourcePaths := by
  obtain ⟨db₅, h₅, hrest⟩ := run_once_eq_ok.mp h
  obtain ⟨_, ⟨⟩, hrest⟩ := run_once_eq_ok.mp hrest
  obtain ⟨db₆, h₆, hrest⟩ := run_once_eq_ok.mp hrest
  obtain ⟨_, ⟨⟩, ⟨⟩⟩ := run_once_eq_ok.mp hrest
  have hdone₅ := v5Done_of_ok h₅
  have hdone₆ := v6Done_of_ok h₆
  obtain ⟨sources, hsources, hpaths⟩ := hdone₆.sources
  refine ⟨rfl, hdone₆.metadata.trans hdone₅.metadata, sources, hsources, fun p => ?_⟩
  rw [hpaths]
  exact mem_sourcePaths_of_v5Done hdone₅ p

/-! ### Stops of a run that fills in the metadata directories -/

def withMetadata (m : MetadataTables) (db : Database) : Database := { db with metadata := some m }

lemma withMetadata_of_eq (h : db.metadata = some m) :
    db.withMetadata m = db := by
  rw [withMetadata, ← h]

lemma finished_withMetadata_inj {m' : MetadataTables} :
    (db.withMetadata m).finished = (db.withMetadata m').finished ↔ m = m' := by
  simp [finished, withMetadata]

lemma getLastD_withMetadata (h : db.metadata = some m) (tables : List MetadataTables) :
    (tables.map db.withMetadata).getLastD db = db.withMetadata (tables.getLastD m) := by
  have hmap := getLastD_map (fun m => db.withMetadata m) tables m
  rwa [withMetadata_of_eq h] at hmap

lemma forall_backfillPaths {sources : List TorrentSource} {paths : List Str}
    (h : ∀ p, p ∈ sources.map TorrentSource.sourcePath ↔ p ∈ paths) :
    (∀ p ∈ backfillPaths sqlite sources, MetadataTables.pathParts p = []) ↔
      ∀ p ∈ paths, MetadataTables.pathParts p = [] := by
  simp only [backfillPaths, sqlite.mem_distinct, mem_filter, decide_eq_true_eq]
  constructor
  · intro hall p hp
    by_cases hnil : p = []
    · rw [hnil]
      rfl
    · exact hall p ⟨(h p).mpr hp, hnil⟩
  · rintro hall p ⟨hp, -⟩
    exact hall p ((h p).mp hp)

/-- A run from below version 3: `start` is the state after the first transaction, `upgraded` the
one before the directories are filled in, and `tables` what filling them in commits. -/
structure OldRun (sqlite : Sqlite) (db start upgraded f : Database)
    (tables : List MetadataTables) : Prop where
  base : db.baseTransaction = .ok start
  version : start.userVersion = 4
  upgrade : run (upgradeSteps sqlite) start = .ok upgraded
  version6 : upgraded.userVersion = 6
  metadata : upgraded.metadata = some ⟨[], []⟩
  backfill : backfill sqlite upgraded = .ok (tables.map upgraded.withMetadata)
  grows : Grows MetadataTables.size ⟨[], []⟩ tables
  nil_iff : tables = [] ↔ ∀ p ∈ db.sourcePaths, MetadataTables.pathParts p = []
  hasTables : upgraded.HasTables
  last : f = (upgraded.withMetadata (tables.getLastD ⟨[], []⟩)).finished

lemma oldRun_of_ok (hwf : db.WellFormed) (hv : db.userVersion < 3)
    (h : runMigrations sqlite db = .ok f) :
    ∃ start upgraded tables, OldRun sqlite db start upgraded f tables := by
  rw [runMigrations, steps_of_version3 hv] at h
  obtain ⟨start, hbase, h⟩ := run_once_eq_ok.mp h
  obtain ⟨upgraded, hupgrade, h⟩ := run_append.mp h
  obtain ⟨states, hbackfill, hfinish⟩ := run_cons_eq_ok.mp h
  obtain ⟨hmetadata, hpaths⟩ := baseTransaction_of_lt hwf hv hbase
  obtain ⟨hversion6, hmetadata', sources, hsources, hmem⟩ := run_upgradeSteps hupgrade
  rw [hpaths] at hmem
  rw [hmetadata] at hmetadata'
  -- the tables are empty before the directories are filled in
  let tables := MetadataTables.ensureAll (backfillPaths sqlite sources) ⟨[], []⟩
  have hstates : Database.backfill sqlite upgraded = .ok (tables.map upgraded.withMetadata) := by
    simp only [Database.backfill, hsources, hmetadata', requireTable, bind, Except.bind, pure,
      Except.pure]
    rw [← hsources]
    rfl
  cases hstates.symm.trans hbackfill
  rw [getLastD_withMetadata hmetadata'] at hfinish
  obtain ⟨htables, rfl⟩ := run_finishSteps hfinish
  exact ⟨start, upgraded, tables,
    { base := hbase
      version := version_baseTransaction (by omega) hbase
      upgrade := hupgrade
      version6 := hversion6
      metadata := hmetadata'
      backfill := hstates
      grows := MetadataTables.ensureAll_grows (fun d hd => by simp at hd) _
      nil_iff := (MetadataTables.ensureAll_eq_nil_iff _).trans (forall_backfillPaths hmem)
      hasTables := htables
      last := rfl }⟩

namespace OldRun

variable {db start upgraded f : Database} {tables : List MetadataTables}

section

variable (h : OldRun sqlite db start upgraded f tables)
include h

lemma eq_iff_of_empty :
    upgraded.finished = f ↔ ∀ p ∈ db.sourcePaths, MetadataTables.pathParts p = [] := by
  rw [← h.nil_iff, ← h.grows.last_eq_iff, ← finished_withMetadata_inj, ← h.last,
    withMetadata_of_eq h.metadata]

lemma resumes_backfill {before after : List MetadataTables} {m : MetadataTables}
    (hm : tables = before ++ m :: after) :
    runMigrations sqlite (upgraded.withMetadata m) = .ok f ↔ after = [] := by
  have hgrows := h.grows
  rw [hm] at hgrows
  have hlast : tables.getLastD ⟨[], []⟩ = after.getLastD m := by
    rw [hm, getLastD_append, getLastD_cons]
  rw [runMigrations_finished (upgraded.withMetadata m) h.version6 h.hasTables, Except.ok.injEq,
    h.last, hlast, finished_withMetadata_inj, hgrows.of_append.last_eq_iff]

lemma run_upgrade : run (upgradeSteps sqlite ++ finishSteps) start = .ok upgraded.finished :=
  run_append.mpr ⟨upgraded, h.upgrade, run_finishSteps_of_hasTables h.hasTables⟩

end

end OldRun

lemma restartable_of_oldRun {start upgraded : Database} {tables : List MetadataTables}
    (h : OldRun sqlite db start upgraded f tables) (hv : db.userVersion < 3)
    (hs : ((step, left), t) ∈ Commits.stops (steps sqlite db.userVersion) db) :
    runMigrations sqlite t = .ok f ↔ db.Restartable (some (step, left)) := by
  rw [steps_of_version3 hv] at hs
  obtain ⟨_, hbase, hs⟩ := mem_stops_once hs
  cases h.base.symm.trans hbase
  rcases hs with ⟨hstop, rfl⟩ | hs
  · -- the first transaction has set the version number to 4: no backfill follows
    cases hstop
    rw [runMigrations_of_version4 h.version, h.run_upgrade, Except.ok.injEq, h.eq_iff_of_empty]
    simp [Restartable, hv]
  rw [stops_append h.upgrade, stops_cons_of_ok h.backfill, mem_append, mem_append] at hs
  rcases hs with hs | hs | hs
  · have hresumes : Resumes sqlite upgraded.finished step t := by
      apply resumes_upgrade h.version h.run_upgrade
      rw [stops_append h.upgrade]
      exact mem_append_left _ hs
    have hlabel := label_of_mem_stops hs
    simp only [upgradeSteps, splitSteps, once, map_cons, map_nil, mem_cons,
      not_mem_nil, or_false] at hlabel
    by_cases hstep : step = .v6
    · simp [hstep, Restartable, hresumes.2 hstep f]
    · rw [hresumes.1 hstep, Except.ok.injEq, h.eq_iff_of_empty]
      rcases hlabel with rfl | rfl | rfl | rfl <;> simp_all [Restartable]
  · obtain ⟨rfl, before, after, hstates, rfl⟩ := mem_mark hs
    obtain ⟨before', rest, htables, -, hrest⟩ := List.map_eq_append_iff.mp hstates
    obtain ⟨m, after', rfl, rfl, rfl⟩ := List.map_eq_cons_iff.mp hrest
    have hne : tables ≠ [] := by simp [htables]
    rw [h.resumes_backfill htables]
    simp [Restartable, hv, ← h.nil_iff, hne]
  · rw [getLastD_withMetadata h.metadata] at hs
    have hresumes : Resumes sqlite f step t := by
      refine resumes_finish ?_ ?_ hs
      · exact h.version6
      · rw [h.last]
        exact run_finishSteps_of_hasTables h.hasTables
    have hlabel := label_of_mem_stops hs
    simp only [finishSteps, once, map_cons, map_nil, mem_cons, not_mem_nil,
      or_false] at hlabel
    rw [hresumes.iff]
    rcases hlabel with rfl | rfl | rfl <;> simp [Restartable]

lemma mem_stops_base {ps : List (Step Database DbError MigrationStep)}
    {stop : MigrationStep × ℕ} (hv : 4 ≤ db.userVersion)
    (hs : (stop, t) ∈ Commits.stops (once .base baseTransaction :: ps) db) :
    (stop = (.base, 0) ∧ t = db) ∨ (stop, t) ∈ Commits.stops ps db := by
  obtain ⟨_, hbase, hs⟩ := mem_stops_once hs
  cases (baseTransaction_of_le hv).symm.trans hbase
  exact hs

lemma resumes_of_version3 (hv : 3 ≤ db.userVersion) (hrun : runMigrations sqlite db = .ok f)
    (hs : ((step, left), t) ∈ Commits.stops (steps sqlite db.userVersion) db) :
    Resumes sqlite f step t := by
  by_cases h5 : db.userVersion < 5
  · rw [runMigrations, steps_of_version4 hv h5] at hrun
    rw [steps_of_version4 hv h5] at hs
    obtain ⟨start, hbase, hrun⟩ := run_once_eq_ok.mp hrun
    obtain ⟨_, hbase', hs⟩ := mem_stops_once hs
    cases hbase.symm.trans hbase'
    have hstart : start.userVersion = 4 := version_baseTransaction h5 hbase
    rcases hs with ⟨⟨⟩, rfl⟩ | hs
    · refine ⟨fun _ => ?_, fun hstep => nomatch hstep⟩
      rw [runMigrations_of_version4 hstart, hrun]
    · exact resumes_upgrade hstart hrun hs
  have hagain : Resumes sqlite f .base db := ⟨fun _ => hrun, fun hstep => nomatch hstep⟩
  have hcases : db.userVersion = 5 ∨ db.userVersion = 6 ∨ 7 ≤ db.userVersion := by omega
  rcases hcases with h5 | h6 | h7
  · rw [h5] at hs
    rcases mem_stops_base (by omega) hs with ⟨⟨⟩, rfl⟩ | hs
    · exact hagain
    · exact resumes_split h5 (runMigrations_of_version5 h5 ▸ hrun) hs
  · rw [h6] at hs
    rcases mem_stops_base (by omega) hs with ⟨⟨⟩, rfl⟩ | hs
    · exact hagain
    · exact resumes_finish h6 (runMigrations_of_version6 h6 ▸ hrun) hs
  · rw [steps_of_version7 h7] at hs
    rcases mem_stops_base (by omega) hs with ⟨⟨⟩, rfl⟩ | hs
    · exact hagain
    · cases hs

/-- A run that is stopped and started again ends where an uninterrupted run ends exactly when the
stop is one of the harmless ones. -/
theorem runMigrations_after_stop_iff (sqlite : Sqlite) {db f t : Database}
    {stop : Option (MigrationStep × ℕ)} (hwf : db.WellFormed)
    (hrun : runMigrations sqlite db = .ok f) (hstop : (stop, t) ∈ stops sqlite db) :
    runMigrations sqlite t = .ok f ↔ db.Restartable stop := by
  rw [stops, List.mem_cons, List.mem_map] at hstop
  rcases hstop with hstop | ⟨⟨⟨step, left⟩, u⟩, hs, heq⟩
  · cases hstop
    simp [hrun, Restartable]
  cases heq
  by_cases hv : db.userVersion < 3
  · obtain ⟨start, upgraded, tables, hold⟩ := oldRun_of_ok hwf hv hrun
    exact restartable_of_oldRun hold hv hs
  · rw [(resumes_of_version3 (by omega) hrun hs).iff]
    simp [Restartable, hv]

def plainSqlite : Sqlite := ⟨fun _ => [], id, fun _ _ => Iff.rfl⟩

def singleTorrent (v : ℕ) : Database where
  userVersion := v
  torrents := some ⟨v5Columns, [⟨1, [], [], 0, 1, [], ['a'], none, none, [], [], []⟩]⟩
  torrentSources := none
  torrentDirectories := some []
  directoryClosure := some []
  torrentFiles := some ⟨{.path, .firstPiece, .lastPiece}, []⟩
  metadata := some ⟨[], []⟩
  indexes := ∅

theorem runMigrations_after_v5_stop :
    ∃ f t, (singleTorrent 4).WellFormed ∧ runMigrations plainSqlite (singleTorrent 4) = .ok f ∧
      (some (.v5, 0), t) ∈ stops plainSqlite (singleTorrent 4) ∧
      runMigrations plainSqlite t = .ok f := by
  have hwf : (singleTorrent 4).WellFormed := fun h => absurd h (by decide)
  have hstop : (some (.v5, 0), singleTorrent 4) ∈ stops plainSqlite (singleTorrent 4) :=
    .tail _ (.tail _ (.head _))
  refine ⟨_, _, hwf, rfl, hstop, ?_⟩
  exact (runMigrations_after_stop_iff plainSqlite hwf rfl hstop).mpr
    ⟨by decide, fun h => absurd h (by decide)⟩

/-- Stopped between the version 6 migration and the statement that records it, a database of
version 5 cannot be opened any more. -/
theorem runMigrations_fails_after_v6_stop :
    (∃ f, runMigrations plainSqlite (singleTorrent 5) = .ok f) ∧
      ∃ t, (some (.v6, 0), t) ∈ stops plainSqlite (singleTorrent 5) ∧
        runMigrations plainSqlite t = .error .noSuchColumn :=
  ⟨⟨_, rfl⟩, _, .tail _ (.tail _ (.head _)), rfl⟩

end Database

end TorrentFs.Db
