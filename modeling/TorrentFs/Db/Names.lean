import TorrentFs.Db.RenameDirectory
import TorrentFs.Db.References

/-!
# Sources and metadata directories together

The names the database keeps: the sources, and the directories below `metadata/`. Directories are
created and deleted by statements whose failures the callers only log; a rename of a directory is
one transaction over both tables.
-/

namespace TorrentFs.Db

open Text Sql Option Function

abbrev DirectoryTable := AutoTable MetadataDirectory MetadataDirectory.id

namespace DirectoryTable

/-- The loop of `ensure_metadata_directories`. Each insertion is committed by itself; after
`budget` of them the next one fails. -/
def ensureParts : ℕ → Str → Option ℕ → List Str → DirectoryTable → DirectoryTable
  | _, _, _, [], t => t
  | budget, currentPath, parentId, part :: rest, t =>
    let path := if currentPath = [] then part else currentPath ++ '/' :: part
    match t.rows.find? fun d => d.path = path with
    | some d => ensureParts budget path (some d.id) rest t
    | none =>
      match budget with
      | 0 => t
      | budget + 1 =>
        match t.insert (fun id => ⟨id, parentId, part, path⟩) fun _ => rfl with
        | .error _ => t
        | .ok (t, id) => ensureParts budget path (some id) rest t

def ensureMetadataDirectories (budget : ℕ) (path : Str) (t : DirectoryTable) : DirectoryTable :=
  ensureParts budget [] none ((path.splitOn '/').filter fun part => part ≠ []) t

def withChildren (t : DirectoryTable) : ℕ → List ℕ → List ℕ
  | 0, ids => ids
  | fuel + 1, ids =>
    withChildren t fuel (ids ++ (t.rows.filter fun d => d.parentId.any (· ∈ ids)).map
      MetadataDirectory.id)

def deleteMetadataDirectory (path : Str) (t : DirectoryTable) : DirectoryTable :=
  let ids := (t.rows.filter fun d => d.path = path).map MetadataDirectory.id
  let doomed := withChildren t t.rows.length ids
  t.filter fun d => d.id ∉ doomed

end DirectoryTable

structure NameTables where
  torrents : TorrentTables
  directories : DirectoryTable

namespace TorrentTables

def names (t : TorrentTables) : Set (Str × Str) := {name | ∃ s ∈ t.sources, s.location = name}

lemma mem_names {t : TorrentTables} {name : Str × Str} :
    name ∈ t.names ↔ ∃ c, t.holdings name = some c := by
  rw [← ne_none_iff_exists', ne_eq, holdings_eq_none, names, Set.mem_ofPred_eq]
  push Not
  rfl

section Updates

variable {t t' : TorrentTables} {name source dest : Str × Str} {c : Content}

lemma names_of_update (h : t'.holdings = Function.update t.holdings name (some c)) :
    t'.names = insert name t.names := by
  ext other
  rw [Set.mem_insert_iff, mem_names, mem_names, h]
  by_cases hname : other = name
  · subst hname
    simp
  · rw [update_of_ne hname]
    simp [hname]

lemma names_of_update_none (h : t'.holdings = Function.update t.holdings name none) :
    t'.names = t.names \ {name} := by
  ext other
  rw [Set.mem_sdiff, Set.mem_singleton_iff, mem_names, mem_names, h]
  by_cases hname : other = name
  · subst hname
    simp
  · rw [update_of_ne hname]
    simp [hname]

lemma names_of_move (hsource : t.holdings source = some c)
    (h : t'.holdings =
      Function.update (Function.update t.holdings source none) dest (t.holdings source)) :
    t'.names = insert dest (t.names \ {source}) := by
  ext other
  rw [Set.mem_insert_iff, Set.mem_sdiff, Set.mem_singleton_iff, mem_names, mem_names, h, hsource]
  by_cases hdest : other = dest
  · subst hdest
    simp
  · rw [update_of_ne hdest]
    by_cases hname : other = source
    · subst hname
      simp [hdest]
    · rw [update_of_ne hname]
      simp [hdest, hname]

variable {fault : Option SqlError}

lemma names_removeTorrent {checkFails : Bool}
    {filename sourcePath : Str} {removed : Option (ℕ × Str)} {purge : Option Str}
    (h : t.removeTorrent fault checkFails filename sourcePath = (.ok removed, purge, t')) :
    t'.names = t.names \ {(sourcePath, filename)} := by
  unfold removeTorrent at h
  cases fault with
  | some e => cases (Prod.mk.inj h).1
  | none =>
    cases hat : t.sourceAt sourcePath filename with
    | none =>
      rw [hat] at h
      obtain rfl : t = t' := congrArg (fun result => result.2.2) h
      refine (Set.sdiff_singleton_eq_self ?_).symm
      rintro ⟨s, hs, hloc⟩
      exact absurd ((sourceAt_eq_some.mpr ⟨hs, hloc⟩).symm.trans hat) (some_ne_none s)
    | some s =>
      obtain ⟨hs, hloc⟩ := sourceAt_eq_some.mp hat
      obtain ⟨c, -, -, hjoined, -⟩ := exists_joined hs
      rw [hat, bind_some, hjoined] at h
      obtain rfl : t.deleteRows s.id = t' := congrArg (fun result => result.2.2) h
      exact names_of_update_none (hloc ▸ holdings_deleteRows hs)

lemma names_renameTorrent {s : TorrentSource} (hs : s ∈ t.sources)
    {newFilename newSourcePath : Str}
    (h : t.renameTorrent fault s.id newFilename newSourcePath = (.ok (), t')) :
    t'.names = insert (newSourcePath, newFilename) (t.names \ {s.location}) := by
  unfold renameTorrent at h
  rcases transaction_cases fault (fun t =>
    (t.setSourceName s.id newFilename newSourcePath).map fun t => ((), t)) t with
    ⟨e, heq⟩ | ⟨_, t₁, hbody, heq⟩
  · rw [heq] at h
    cases (Prod.mk.inj h).1
  · rw [heq] at h
    obtain rfl : t₁ = t' := congrArg Prod.snd h
    cases hset : t.setSourceName s.id newFilename newSourcePath with
    | error e =>
      rw [hset] at hbody
      cases hbody
    | ok t₂ =>
      rw [hset] at hbody
      obtain rfl : t₂ = t₁ := congrArg Prod.snd (Except.ok.inj hbody)
      obtain ⟨c, -, -, -, hholds⟩ := exists_joined hs
      exact names_of_move hholds (holdings_setSourceName hs hset)

lemma names_renameTorrentOverwriting {checkFails : Bool}
    {oldName oldSourcePath newName newSourcePath : Str} {removed : Option (ℕ × Str)}
    {purge : Option Str} (hne : (oldSourcePath, oldName) ≠ (newSourcePath, newName))
    (h : t.renameTorrentOverwriting fault checkFails oldName oldSourcePath newName newSourcePath =
      (.ok (.moved removed), purge, t')) :
    (oldSourcePath, oldName) ∈ t.names ∧
      t'.names = insert (newSourcePath, newName) (t.names \ {(oldSourcePath, oldName)}) := by
  have hmove : t.moveTorrentReplacing fault oldName oldSourcePath newName newSourcePath =
      (.ok (.moved removed), t') := by
    unfold renameTorrentOverwriting at h
    split at h
    · next hmove =>
      obtain ⟨hresult, hrest⟩ := Prod.mk.inj h
      rw [hmove, hresult, (Prod.mk.inj hrest).2]
    · next hmove =>
      obtain ⟨hresult, hrest⟩ := Prod.mk.inj h
      rw [hmove, hresult, (Prod.mk.inj hrest).2]
  unfold moveTorrentReplacing at hmove
  rcases transaction_cases fault (moveBody oldName oldSourcePath newName newSourcePath) t with
    ⟨e, heq⟩ | ⟨result, t₁, hbody, heq⟩
  · rw [heq] at hmove
    cases (Prod.mk.inj hmove).1
  · rw [heq] at hmove
    obtain ⟨hresult, rfl⟩ := Prod.mk.inj hmove
    cases hresult
    have hsource : t.holdings (oldSourcePath, oldName) ≠ none := by
      obtain ⟨hresult, -⟩ | ⟨s, hs, hloc, -⟩ := moveBody_eq_ok hbody
      · cases hresult
      · exact fun hnone => holdings_eq_none.mp hnone s hs hloc
    obtain ⟨c, hc⟩ := Option.ne_none_iff_exists'.mp hsource
    obtain ⟨-, hholdings⟩ := holdings_moveBody hbody hsource
    rw [if_neg hne] at hholdings
    exact ⟨mem_names.mpr ⟨c, hc⟩, names_of_move hc hholdings⟩

end Updates

end TorrentTables

namespace NameTables

def renameMetadataDirectory (fault : Option SqlError) (oldPath newName newPath : Str)
    (t : NameTables) : Except SqlError Unit × NameTables :=
  match fault with
  | some e => (.error e, t)
  | none =>
    match h : Catalog.renameMetadataDirectory ⟨t.directories.rows, t.torrents.sources.rows⟩
        oldPath newName newPath with
    | none => (.error .constraint, t)
    | some db =>
      (.ok (),
        { directories := t.directories.withRows db.metadataDirectories (by
            have hrows := congrArg (List.map Prod.fst) (Catalog.rows_of_rename h).1
            simpa [Function.comp_def] using hrows)
          torrents :=
            { contents := t.torrents.contents
              sources := t.torrents.sources.withRows db.torrentSources (by
                rw [(Catalog.sources_of_rename h).1, List.map_map]
                rfl)
              files := t.torrents.files
              unique := by
                have hnodup := (Catalog.sources_of_rename h).2 t.torrents.nodup_locations
                exact fun s hs s' hs' hname => List.inj_on_of_nodup_map hnodup hs hs' hname
              foreign := by
                intro s hs
                have hrows : s ∈ db.torrentSources := hs
                rw [(Catalog.sources_of_rename h).1] at hrows
                obtain ⟨s', hs', rfl⟩ := List.mem_map.mp hrows
                exact t.torrents.foreign s' hs' } })

variable {t t' : NameTables} {fault : Option SqlError} {oldPath newName newPath : Str}

lemma mem_sources_renameMetadataDirectory
    (h : t.renameMetadataDirectory fault oldPath newName newPath = (.ok (), t')) :
    (∀ s, s ∈ t'.torrents.sources ↔ ∃ s' ∈ t.torrents.sources,
        { s' with sourcePath := updatedPath oldPath newPath s'.sourcePath } = s) ∧
      t'.torrents.contents = t.torrents.contents := by
  unfold renameMetadataDirectory at h
  split at h
  · cases (Prod.mk.inj h).1
  · split at h
    · cases (Prod.mk.inj h).1
    · next db hrename =>
      obtain rfl := (Prod.mk.inj h).2
      refine ⟨fun s => ?_, rfl⟩
      show s ∈ db.torrentSources ↔ _
      rw [(Catalog.sources_of_rename hrename).1, List.mem_map]
      rfl

lemma names_renameMetadataDirectory
    (h : t.renameMetadataDirectory fault oldPath newName newPath = (.ok (), t')) :
    t'.torrents.names =
      (fun name => (updatedPath oldPath newPath name.1, name.2)) '' t.torrents.names := by
  have hmem := (mem_sources_renameMetadataDirectory h).1
  ext name
  constructor
  · rintro ⟨s, hs, rfl⟩
    obtain ⟨s', hs', rfl⟩ := (hmem s).mp hs
    exact ⟨s'.location, ⟨s', hs', rfl⟩, rfl⟩
  · rintro ⟨_, ⟨s', hs', rfl⟩, rfl⟩
    exact ⟨_, (hmem _).mpr ⟨s', hs', rfl⟩, rfl⟩

lemma sound_renameMetadataDirectory {contentHashOf : List UInt8 → Str}
    (hsound : t.torrents.Sound contentHashOf)
    (h : t.renameMetadataDirectory fault oldPath newName newPath = (.ok (), t')) :
    t'.torrents.Sound contentHashOf := by
  obtain ⟨hsources, hcontents⟩ := mem_sources_renameMetadataDirectory h
  refine ⟨fun c hc => ?_, hsound.stored.mono fun c hc => hcontents ▸ hc⟩
  obtain ⟨name, hname⟩ := hsound.used c (hcontents ▸ hc)
  obtain ⟨s, hs, -, -, hid⟩ := TorrentTables.holdings_eq_some.mp hname
  exact ⟨_, TorrentTables.holdings_of_mem ((hsources _).mpr ⟨s, hs, rfl⟩) hc hid⟩

end NameTables

end TorrentFs.Db
