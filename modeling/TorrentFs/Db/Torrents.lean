import TorrentFs.Db.Files

/-!
# Torrent contents and their sources

A content is the bytes of a `.torrent` file with what was read out of them; a source is a name, a
source path with a file name, that points at a content. Sources share a content when their bytes
are the same. The module has the statements on the two tables, the transactions of
`torrent_ops.rs` over them, and the calls of `TorrentService` that decide whether an info hash is
purged.

What the schema enforces is part of the type `TorrentTables`: ids are primary keys, a name has at
most one source, and every source points at a content. A statement that would break it fails.
-/

namespace TorrentFs.Db

open Text Sql List Function AutoTable

/-- A row of `torrents`, without the columns that no transaction here reads or sets. -/
structure Content where
  id : ℕ
  infoHash : Str
  name : Str
  totalSize : ℤ
  fileCount : ℤ
  status : Str
  torrentData : Option (List UInt8)
  contentHash : Str
deriving DecidableEq

def TorrentSource.location (s : TorrentSource) : Str × Str := (s.sourcePath, s.filename)

/-- The tables of contents, sources and files, with the constraints of the schema. -/
structure TorrentTables where
  contents : AutoTable Content Content.id
  sources : AutoTable TorrentSource TorrentSource.id
  files : FileTables
  unique : ∀ s ∈ sources, ∀ s' ∈ sources, s.location = s'.location → s = s'
  foreign : ∀ s ∈ sources, ∃ c ∈ contents, c.id = s.torrentId

structure InsertTorrentOutcome where
  sourceId : ℕ
  contentId : ℕ
  contentCreated : Bool
  sourceReused : Bool
  staleInfoHash : Option Str

inductive MoveOverwriteResult
  | sourceAbsent
  | moved (removedTarget : Option (ℕ × Str))

/-- What is inserted: the arguments of `insert_torrent_with_files_inner`. -/
structure NewTorrent where
  sourcePath : Str
  name : Str
  filename : Str
  totalSize : ℤ
  infoHash : Str
  fileCount : ℤ
  files : List FileEntry
  data : Option (List UInt8)

namespace TorrentTables

def empty : TorrentTables where
  contents := AutoTable.empty
  sources := AutoTable.empty
  files := FileTables.empty
  unique := by simp
  foreign := by simp

/-! ### Statements -/

def sourceAt (t : TorrentTables) (sourcePath filename : Str) : Option TorrentSource :=
  t.sources.rows.find? fun s => s.sourcePath == sourcePath && s.filename == filename

def joined (t : TorrentTables) (s : TorrentSource) : Option (TorrentSource × Content) :=
  (t.contents.get? s.torrentId).map fun c => (s, c)

def contentAt (t : TorrentTables) (sourcePath filename : Str) : Option Content :=
  (t.sourceAt sourcePath filename).bind fun s => t.contents.get? s.torrentId

def refCount (t : TorrentTables) (contentId : ℕ) : ℕ :=
  t.sources.rows.countP fun s => s.torrentId == contentId

/-- `get_torrents_by_infohash`, the ids only: the sources joined with a content of the info
hash. -/
def sourcesOfInfoHash (t : TorrentTables) (infoHash : Str) : List ℕ :=
  (t.sources.rows.filter fun s =>
    (t.contents.get? s.torrentId).any fun c => c.infoHash == infoHash).map TorrentSource.id

def insertContent (t : TorrentTables) (row : ℕ → Content) (hrow : ∀ id, (row id).id = id)
    (files : List FileEntry) : Except SqlError (TorrentTables × ℕ) :=
  match h : t.contents.insert row hrow with
  | .error e => .error e
  | .ok (contents, id) =>
    match t.files.insertFilesInTx id files with
    | .error e => .error e
    | .ok fileTables =>
      .ok ({  contents
              sources := t.sources
              files := fileTables
              unique := t.unique
              foreign := by
                intro s hs
                obtain ⟨c, hc, hid⟩ := t.foreign s hs
                exact ⟨c, ((AutoTable.insert_eq_ok h).1 c).mpr (.inl hc), hid⟩ }, id)

def insertSource (t : TorrentTables) (contentId : ℕ) (sourcePath filename : Str) :
    Except SqlError (TorrentTables × ℕ) :=
  if hunique : ∃ s ∈ t.sources.rows, s.location = (sourcePath, filename) then .error .constraint
  else if hforeign : ∃ c ∈ t.contents.rows, c.id = contentId then
    match h : t.sources.insert (fun id => ⟨id, contentId, sourcePath, filename⟩) fun _ => rfl with
    | .error e => .error e
    | .ok (sources, id) =>
      .ok ({  contents := t.contents
              sources
              files := t.files
              unique := by
                have hmem := (AutoTable.insert_eq_ok h).1
                intro s hs s' hs' hname
                rcases (hmem s).mp hs with hs | rfl <;> rcases (hmem s').mp hs' with hs' | rfl
                · exact t.unique s hs s' hs' hname
                · exact absurd ⟨s, hs, hname⟩ hunique
                · exact absurd ⟨s', hs', hname.symm⟩ hunique
                · rfl
              foreign := by
                intro s hs
                rcases ((AutoTable.insert_eq_ok h).1 s).mp hs with hs | rfl
                · exact t.foreign s hs
                · exact hforeign }, id)
  else .error .constraint

def setSourceContent (t : TorrentTables) (sourceId contentId : ℕ) : Except SqlError TorrentTables :=
  if hforeign : ∃ c ∈ t.contents.rows, c.id = contentId then
    .ok
      { contents := t.contents
        sources := t.sources.update sourceId (fun s => { s with torrentId := contentId })
          fun _ => rfl
        files := t.files
        unique := by
          intro s hs s' hs' hname
          rcases (AutoTable.mem_update _).mp hs with ⟨hs, hid⟩ | ⟨r, hr, hid, rfl⟩ <;>
            rcases (AutoTable.mem_update _).mp hs' with ⟨hs', hid'⟩ | ⟨r', hr', hid', rfl⟩
          · exact t.unique s hs s' hs' hname
          · obtain rfl := t.unique s hs r' hr' hname
            exact absurd hid' hid
          · obtain rfl := t.unique r hr s' hs' hname
            exact absurd hid hid'
          · rw [t.unique r hr r' hr' hname]
        foreign := by
          intro s hs
          rcases (AutoTable.mem_update _).mp hs with ⟨hs, -⟩ | ⟨r, -, -, rfl⟩
          · exact t.foreign s hs
          · exact hforeign }
  else .error .constraint

def setSourceName (t : TorrentTables) (sourceId : ℕ) (filename sourcePath : Str) :
    Except SqlError TorrentTables :=
  if hunique : ∃ s ∈ t.sources.rows, s.id ≠ sourceId ∧ s.location = (sourcePath, filename) ∧
      ∃ r ∈ t.sources.rows, r.id = sourceId then
    .error .constraint
  else
    .ok
      { contents := t.contents
        sources := t.sources.update sourceId (fun s => { s with sourcePath, filename })
          fun _ => rfl
        files := t.files
        unique := by
          intro s hs s' hs' hname
          rcases (AutoTable.mem_update _).mp hs with ⟨hs, hid⟩ | ⟨r, hr, hid, rfl⟩ <;>
            rcases (AutoTable.mem_update _).mp hs' with ⟨hs', hid'⟩ | ⟨r', hr', hid', rfl⟩
          · exact t.unique s hs s' hs' hname
          · exact absurd ⟨s, hs, hid, hname, r', hr', hid'⟩ hunique
          · exact absurd ⟨s', hs', hid', hname.symm, r, hr, hid⟩ hunique
          · rw [AutoTable.eq_of_key hr hr' (hid.trans hid'.symm)]
        foreign := by
          intro s hs
          rcases (AutoTable.mem_update _).mp hs with ⟨hs, -⟩ | ⟨r, hr, -, rfl⟩
          · exact t.foreign s hs
          · exact t.foreign r hr }

def deleteSource (t : TorrentTables) (sourceId : ℕ) : TorrentTables where
  contents := t.contents
  sources := t.sources.filter fun s => s.id != sourceId
  files := t.files
  unique := by
    intro s hs s' hs' hname
    exact t.unique s (AutoTable.mem_filter.mp hs).1 s' (AutoTable.mem_filter.mp hs').1 hname
  foreign := fun s hs => t.foreign s (AutoTable.mem_filter.mp hs).1

/-- `DELETE FROM torrents WHERE id = ?`; the sources and the files of the content go with it. -/
def deleteContent (t : TorrentTables) (contentId : ℕ) : TorrentTables where
  contents := t.contents.filter fun c => c.id != contentId
  sources := t.sources.filter fun s => s.torrentId != contentId
  files := t.files.deleteContent contentId
  unique := by
    intro s hs s' hs' hname
    exact t.unique s (AutoTable.mem_filter.mp hs).1 s' (AutoTable.mem_filter.mp hs').1 hname
  foreign := by
    intro s hs
    obtain ⟨hs, hne⟩ := AutoTable.mem_filter.mp hs
    obtain ⟨c, hc, hid⟩ := t.foreign s hs
    refine ⟨c, AutoTable.mem_filter.mpr ⟨hc, ?_⟩, hid⟩
    rwa [hid]

/-! ### Transactions -/

def dropUnreferenced (t : TorrentTables) (contentId : ℕ) : TorrentTables :=
  if t.refCount contentId = 0 then t.deleteContent contentId else t

/-- The content with the bytes that are inserted, or, without bytes, with the same info hash and
sizes. -/
def existingContent (contentHashOf : List UInt8 → Str) (t : TorrentTables) (new : NewTorrent) :
    Option ℕ :=
  match new.data with
  | some bytes =>
    (t.contents.rows.find? fun c =>
      c.contentHash == contentHashOf bytes && c.torrentData == some bytes).map Content.id
  | none =>
    (t.contents.rows.find? fun c => c.infoHash == new.infoHash &&
      c.totalSize == new.totalSize && c.fileCount == new.fileCount).map Content.id

def findOrCreateContent (contentHashOf : List UInt8 → Str) (t : TorrentTables)
    (new : NewTorrent) : Except SqlError (TorrentTables × ℕ × Bool) :=
  match t.existingContent contentHashOf new with
  | some contentId => .ok (t, contentId, false)
  | none =>
    match t.insertContent (fun id => ⟨id, new.infoHash, new.name, new.totalSize, new.fileCount,
        "pending".toList, new.data, (new.data.map contentHashOf).getD []⟩) (fun _ => rfl)
        new.files with
    | .error e => .error e
    | .ok (t, contentId) => .ok (t, contentId, true)

/-- The source points at another content; the content it leaves is deleted when it was the last to
refer to it. The info hash of that content is stale when no source refers to it any more. -/
def repointSource (t : TorrentTables) (source : TorrentSource) (contentId : ℕ) :
    Except SqlError (TorrentTables × Option Str) :=
  let old := t.joined source
  match t.setSourceContent source.id contentId with
  | .error e => .error e
  | .ok t =>
    match old with
    | none => .ok (t, none)
    | some (_, oldContent) =>
      if oldContent.id ≠ contentId ∧ t.refCount oldContent.id = 0 then
        let t := t.deleteContent oldContent.id
        let remaining := t.sourcesOfInfoHash oldContent.infoHash
        .ok (t, if remaining.isEmpty then some oldContent.infoHash else none)
      else .ok (t, none)

def insertBody (contentHashOf : List UInt8 → Str) (new : NewTorrent) (t : TorrentTables) :
    Except SqlError (InsertTorrentOutcome × TorrentTables) :=
  let existingSource := t.sourceAt new.sourcePath new.filename
  match t.findOrCreateContent contentHashOf new with
  | .error e => .error e
  | .ok (t, contentId, contentCreated) =>
    match existingSource with
    | some source =>
      match t.repointSource source contentId with
      | .error e => .error e
      | .ok (t, stale) => .ok (⟨source.id, contentId, contentCreated, true, stale⟩, t)
    | none =>
      match t.insertSource contentId new.sourcePath new.filename with
      | .error e => .error e
      | .ok (t, sourceId) => .ok (⟨sourceId, contentId, contentCreated, false, none⟩, t)

def insertTorrent (contentHashOf : List UInt8 → Str) (fault : Option SqlError) (new : NewTorrent)
    (t : TorrentTables) : Except SqlError InsertTorrentOutcome × TorrentTables :=
  transaction fault (insertBody contentHashOf new) t

/-- A source is deleted, and its content with it when no other source refers to it: the statements
of `delete_torrent`, which `move_torrent_replacing` repeats for the destination. -/
def deleteRows (t : TorrentTables) (sourceId : ℕ) : TorrentTables :=
  match t.sources.get? sourceId with
  | none => t.deleteSource sourceId
  | some source => (t.deleteSource sourceId).dropUnreferenced source.torrentId

def deleteTorrent (fault : Option SqlError) (sourceId : ℕ) (t : TorrentTables) :
    Except SqlError Unit × TorrentTables :=
  transaction fault (fun t => .ok ((), t.deleteRows sourceId)) t

def renameTorrent (fault : Option SqlError) (sourceId : ℕ) (newFilename newSourcePath : Str)
    (t : TorrentTables) : Except SqlError Unit × TorrentTables :=
  transaction fault
    (fun t => (t.setSourceName sourceId newFilename newSourcePath).map fun t => ((), t)) t

def moveBody (sourceFilename sourcePath destFilename destPath : Str) (t : TorrentTables) :
    Except SqlError (MoveOverwriteResult × TorrentTables) :=
  match t.sourceAt sourcePath sourceFilename with
  | none => .ok (.sourceAbsent, t)
  | some source =>
    let removed := (t.sourceAt destPath destFilename).bind t.joined
    let t := match removed with
      | none => t
      | some (dest, _) => t.deleteRows dest.id
    match t.setSourceName source.id destFilename destPath with
    | .error e => .error e
    | .ok t => .ok (.moved (removed.map fun (dest, content) => (dest.id, content.infoHash)), t)

def moveTorrentReplacing (fault : Option SqlError)
    (sourceFilename sourcePath destFilename destPath : Str) (t : TorrentTables) :
    Except SqlError MoveOverwriteResult × TorrentTables :=
  transaction fault (moveBody sourceFilename sourcePath destFilename destPath) t

/-! ### Calls of the service -/

/-- Whether the info hash of a source that went is purged: the check for sources that still refer
to it, which skips the purge when it fails. -/
def purgeUnreferenced (t : TorrentTables) (checkFails : Bool) (infoHash : Str) : Option Str :=
  if checkFails then none
  else if (t.sourcesOfInfoHash infoHash).isEmpty then some infoHash else none

/-- `TorrentService::remove_torrent` up to the purge: the source that was removed, and the info
hash to purge. -/
def removeTorrent (fault : Option SqlError) (checkFails : Bool) (filename sourcePath : Str)
    (t : TorrentTables) : Except SqlError (Option (ℕ × Str)) × Option Str × TorrentTables :=
  match fault with
  | some e => (.error e, none, t)
  | none =>
    match (t.sourceAt sourcePath filename).bind t.joined with
    | none => (.ok none, none, t)
    | some (source, content) =>
      match t.deleteTorrent none source.id with
      | (.error e, t) => (.error e, none, t)
      | (.ok (), t) =>
        (.ok (some (source.id, content.infoHash)),
          t.purgeUnreferenced checkFails content.infoHash, t)

def renameTorrentOverwriting (fault : Option SqlError) (checkFails : Bool)
    (oldName oldSourcePath newName newSourcePath : Str) (t : TorrentTables) :
    Except SqlError MoveOverwriteResult × Option Str × TorrentTables :=
  match t.moveTorrentReplacing fault oldName oldSourcePath newName newSourcePath with
  | (.ok (.moved (some (id, infoHash))), t) =>
    (.ok (.moved (some (id, infoHash))), t.purgeUnreferenced checkFails infoHash, t)
  | (result, t) => (result, none, t)

/-! ### The names and what they hold -/

def holdings (t : TorrentTables) (name : Str × Str) : Option Content := t.contentAt name.1 name.2

section Views

variable {t t' : TorrentTables} {s : TorrentSource} {c : Content}

lemma sourceAt_eq_some {sourcePath filename : Str} : t.sourceAt sourcePath filename = some s ↔
      s ∈ t.sources ∧ s.location = (sourcePath, filename) := by
  constructor
  · intro h
    have hname := find?_some h
    simp only [Bool.and_eq_true, beq_iff_eq] at hname
    exact ⟨mem_of_find?_eq_some h, Prod.ext hname.1 hname.2⟩
  · rintro ⟨hs, hname⟩
    cases hfind : t.sourceAt sourcePath filename with
    | none =>
      have hnone := List.find?_eq_none.mp hfind s hs
      simp_all [TorrentSource.location]
    | some s' =>
      have hname' := find?_some hfind
      simp only [Bool.and_eq_true, beq_iff_eq] at hname'
      refine congrArg some (t.unique s' (mem_of_find?_eq_some hfind) s hs ?_)
      rw [hname]
      exact Prod.ext hname'.1 hname'.2

lemma holdings_eq_some {name : Str × Str} : t.holdings name = some c ↔
      ∃ s ∈ t.sources, s.location = name ∧ c ∈ t.contents ∧ c.id = s.torrentId := by
  simp only [holdings, contentAt, Option.bind_eq_some_iff, sourceAt_eq_some,
    get?_eq_some, and_assoc]

lemma exists_joined (hs : s ∈ t.sources) :
    ∃ c ∈ t.contents, c.id = s.torrentId ∧ t.joined s = some (s, c) ∧
      t.holdings s.location = some c := by
  obtain ⟨c, hc, hid⟩ := t.foreign s hs
  refine ⟨c, hc, hid, ?_, holdings_eq_some.mpr ⟨s, hs, rfl, hc, hid⟩⟩
  rw [joined, AutoTable.get?_eq_some.mpr ⟨hc, hid⟩]
  rfl

lemma holdings_of_mem (hs : s ∈ t.sources) (hc : c ∈ t.contents) (hid : c.id = s.torrentId) :
    t.holdings s.location = some c :=
  holdings_eq_some.mpr ⟨s, hs, rfl, hc, hid⟩

lemma holdings_eq_none {name : Str × Str} :
    t.holdings name = none ↔ ∀ s ∈ t.sources, s.location ≠ name := by
  constructor
  · rintro h s hs rfl
    obtain ⟨c, -, -, -, hholds⟩ := exists_joined hs
    rw [h] at hholds
    cases hholds
  · intro h
    refine Option.eq_none_iff_forall_ne_some.mpr fun c hc => ?_
    obtain ⟨s, hs, hname, -⟩ := holdings_eq_some.mp hc
    exact h s hs hname

lemma refCount_eq_zero {contentId : ℕ} :
    t.refCount contentId = 0 ↔ ∀ s ∈ t.sources, s.torrentId ≠ contentId := by
  rw [refCount, countP_eq_zero]
  simp [mem_def]

def Referenced (t : TorrentTables) (infoHash : Str) : Prop :=
  ∃ s ∈ t.sources, ∃ c ∈ t.contents, c.id = s.torrentId ∧ c.infoHash = infoHash

lemma referenced_iff {infoHash : Str} :
    t.Referenced infoHash ↔ ∃ name c, t.holdings name = some c ∧ c.infoHash = infoHash := by
  constructor
  · rintro ⟨s, hs, c, hc, hid, hhash⟩
    exact ⟨s.location, c, holdings_of_mem hs hc hid, hhash⟩
  · rintro ⟨name, c, hholds, hhash⟩
    obtain ⟨s, hs, -, hc, hid⟩ := holdings_eq_some.mp hholds
    exact ⟨s, hs, c, hc, hid, hhash⟩

lemma isEmpty_sourcesOfInfoHash {infoHash : Str} :
    (t.sourcesOfInfoHash infoHash).isEmpty = true ↔ ¬ t.Referenced infoHash := by
  rw [sourcesOfInfoHash, List.isEmpty_iff, map_eq_nil_iff, filter_eq_nil_iff]
  constructor
  · rintro h ⟨s, hs, c, hc, hid, hhash⟩
    refine h s hs ?_
    rw [AutoTable.get?_eq_some.mpr ⟨hc, hid⟩]
    simpa using hhash
  · intro h s hs hany
    obtain ⟨c, hc, hid⟩ := t.foreign s hs
    rw [AutoTable.get?_eq_some.mpr ⟨hc, hid⟩] at hany
    exact h ⟨s, hs, c, hc, hid, by simpa using hany⟩

end Views

section Statements

variable {t t' : TorrentTables} {s : TorrentSource} {c : Content}

variable {contentId sourceId : ℕ} {filename sourcePath : Str}

lemma holdings_deleteContent (h : ∀ s ∈ t.sources, s.torrentId ≠ contentId) :
    (t.deleteContent contentId).holdings = t.holdings := by
  funext name
  ext c
  rw [holdings_eq_some, holdings_eq_some]
  constructor
  · rintro ⟨s, hs, hname, hc, hid⟩
    exact ⟨s, (AutoTable.mem_filter.mp hs).1, hname, (AutoTable.mem_filter.mp hc).1, hid⟩
  · rintro ⟨s, hs, hname, hc, hid⟩
    have hne := h s hs
    refine ⟨s, AutoTable.mem_filter.mpr ⟨hs, by simpa using hne⟩, hname,
      AutoTable.mem_filter.mpr ⟨hc, ?_⟩, hid⟩
    simpa [hid] using hne

lemma holdings_dropUnreferenced (contentId : ℕ) :
    (t.dropUnreferenced contentId).holdings = t.holdings := by
  unfold dropUnreferenced
  split
  · next h => exact holdings_deleteContent (refCount_eq_zero.mp h)
  · rfl

lemma setSourceName_eq_ok (h : t.setSourceName sourceId filename sourcePath = .ok t') :
    t'.contents = t.contents ∧ ∀ r, r ∈ t'.sources ↔ (r ∈ t.sources ∧ r.id ≠ sourceId) ∨
      ∃ r' ∈ t.sources, r'.id = sourceId ∧ { r' with sourcePath, filename } = r := by
  unfold setSourceName at h
  split at h
  · cases h
  · cases h
    refine ⟨rfl, fun r => mem_update ?_⟩
    exact fun _ => rfl

lemma setSourceContent_eq_ok (h : t.setSourceContent sourceId contentId = .ok t') :
    t'.contents = t.contents ∧ (∃ c ∈ t.contents, c.id = contentId) ∧
      ∀ r, r ∈ t'.sources ↔ (r ∈ t.sources ∧ r.id ≠ sourceId) ∨
        ∃ r' ∈ t.sources, r'.id = sourceId ∧ { r' with torrentId := contentId } = r := by
  unfold setSourceContent at h
  split at h
  · next hforeign =>
    cases h
    refine ⟨rfl, hforeign, fun r => mem_update ?_⟩
    exact fun _ => rfl
  · cases h

lemma holdings_of_ne {name : Str × Str} (hs : s ∈ t.sources) (hname : name ≠ s.location)
    (hcontents : t'.contents = t.contents) (hsources : ∀ r, r.location = name →
      (r ∈ t'.sources ↔ r ∈ t.sources ∧ r.id ≠ s.id)) : t'.holdings name = t.holdings name := by
  ext c
  rw [holdings_eq_some, holdings_eq_some, hcontents]
  constructor
  · rintro ⟨r, hr, hloc, hc⟩
    exact ⟨r, ((hsources r hloc).mp hr).1, hloc, hc⟩
  · rintro ⟨r, hr, hloc, hc⟩
    refine ⟨r, (hsources r hloc).mpr ⟨hr, fun hid => ?_⟩, hloc, hc⟩
    exact hname (hloc.symm.trans (congrArg _ (eq_of_key hr hs hid)))

lemma holdings_deleteSource (hs : s ∈ t.sources) :
    (t.deleteSource s.id).holdings = Function.update t.holdings s.location none := by
  have hmem : ∀ r, r ∈ (t.deleteSource s.id).sources ↔ r ∈ t.sources ∧ r.id ≠ s.id := by
    intro r
    simp [deleteSource]
  funext name
  by_cases hname : name = s.location
  · subst hname
    rw [update_self, holdings_eq_none]
    intro r hr hloc
    obtain ⟨hr, hne⟩ := (hmem r).mp hr
    exact hne (congrArg _ (t.unique r hr s hs hloc))
  · rw [update_of_ne hname]
    exact holdings_of_ne hs hname rfl fun r _ => hmem r

lemma holdings_congr (hcontents : t'.contents = t.contents)
    (hsources : ∀ r, r ∈ t'.sources ↔ r ∈ t.sources) : t'.holdings = t.holdings := by
  funext name
  ext c
  simp only [holdings_eq_some, hcontents, hsources]

lemma deleteRows_of_mem (hs : s ∈ t.sources) :
    t.deleteRows s.id = (t.deleteSource s.id).dropUnreferenced s.torrentId := by
  rw [deleteRows, AutoTable.get?_eq_some.mpr ⟨hs, rfl⟩]

lemma holdings_deleteRows (hs : s ∈ t.sources) :
    (t.deleteRows s.id).holdings = Function.update t.holdings s.location none := by
  rw [deleteRows_of_mem hs]
  exact (holdings_dropUnreferenced _).trans (holdings_deleteSource hs)

lemma mem_sources_dropUnreferenced {r : TorrentSource} :
    r ∈ (t.dropUnreferenced contentId).sources ↔ r ∈ t.sources := by
  unfold dropUnreferenced
  split
  · next h =>
    refine ⟨fun hr => (AutoTable.mem_filter.mp hr).1, fun hr => ?_⟩
    exact AutoTable.mem_filter.mpr ⟨hr, by simpa using refCount_eq_zero.mp h r hr⟩
  · rfl

lemma mem_sources_deleteRows {r : TorrentSource} :
    r ∈ (t.deleteRows sourceId).sources ↔ r ∈ t.sources ∧ r.id ≠ sourceId := by
  have hmem : r ∈ (t.deleteSource sourceId).sources ↔ r ∈ t.sources ∧ r.id ≠ sourceId := by
    simp [deleteSource]
  unfold deleteRows
  split
  · exact hmem
  · exact mem_sources_dropUnreferenced.trans hmem

lemma mem_of_mem_dropUnreferenced
    (hc : c ∈ (t.dropUnreferenced contentId).contents) : c ∈ t.contents := by
  unfold dropUnreferenced at hc
  split at hc
  · exact (AutoTable.mem_filter.mp hc).1
  · exact hc

lemma mem_of_mem_deleteRows (hc : c ∈ (t.deleteRows sourceId).contents) : c ∈ t.contents := by
  unfold deleteRows at hc
  split at hc
  · exact hc
  · exact mem_of_mem_dropUnreferenced (t := t.deleteSource sourceId) hc

lemma holdings_deleteRows_of_absent (h : ∀ r ∈ t.sources, r.id ≠ sourceId) :
    (t.deleteRows sourceId).holdings = t.holdings := by
  rw [deleteRows, AutoTable.get?_eq_none.mpr h]
  refine holdings_congr rfl fun r => ?_
  simpa [deleteSource] using h r

lemma holdings_setSourceName (hs : s ∈ t.sources)
    (h : t.setSourceName s.id filename sourcePath = .ok t') :
    t'.holdings = Function.update (Function.update t.holdings s.location none)
      (sourcePath, filename) (t.holdings s.location) := by
  obtain ⟨content, hcontent, hcid, -, hholds⟩ := exists_joined hs
  obtain ⟨hcontents, hmem⟩ := setSourceName_eq_ok h
  funext name
  by_cases hname : name = (sourcePath, filename)
  · subst hname
    rw [update_self, hholds, holdings_eq_some, hcontents]
    exact ⟨{ s with sourcePath, filename }, (hmem _).mpr (.inr ⟨s, hs, rfl, rfl⟩), rfl,
      hcontent, hcid⟩
  · rw [update_of_ne hname]
    -- a row of this name is one that was not renamed
    have hkept : ∀ r, r.location = name → (r ∈ t'.sources ↔ r ∈ t.sources ∧ r.id ≠ s.id) := by
      intro r hloc
      rw [hmem r, or_iff_left]
      rintro ⟨r', -, -, rfl⟩
      exact hname hloc.symm
    by_cases hold : name = s.location
    · subst hold
      rw [update_self, holdings_eq_none]
      intro r hr hloc
      obtain ⟨hr, hne⟩ := (hkept r hloc).mp hr
      exact hne (congrArg _ (t.unique r hr s hs hloc))
    · rw [update_of_ne hold]
      exact holdings_of_ne hs hold hcontents hkept

lemma holdings_setSourceName_of_absent (habsent : ∀ r ∈ t.sources, r.id ≠ sourceId)
    (h : t.setSourceName sourceId filename sourcePath = .ok t') : t'.holdings = t.holdings := by
  obtain ⟨hcontents, hmem⟩ := setSourceName_eq_ok h
  refine holdings_congr hcontents fun r => (hmem r).trans ⟨?_, fun hr => .inl ⟨hr, habsent r hr⟩⟩
  rintro (⟨hr, -⟩ | ⟨r', hr', hid, -⟩)
  · exact hr
  · exact absurd hid (habsent r' hr')

lemma exists_setSourceName_of_absent
    (habsent : ∀ r ∈ t.sources, r.id ≠ sourceId) (filename sourcePath : Str) :
    ∃ t', t.setSourceName sourceId filename sourcePath = .ok t' := by
  unfold setSourceName
  rw [dif_neg]
  · exact ⟨_, rfl⟩
  · rintro ⟨-, -, -, -, r, hr, hid⟩
    exact habsent r hr hid

lemma free_of_setSourceName (hs : s ∈ t.sources)
    (h : t.setSourceName s.id filename sourcePath = .ok t')
    (hne : (sourcePath, filename) ≠ s.location) : t.holdings (sourcePath, filename) = none := by
  unfold setSourceName at h
  split at h
  · cases h
  · next hunique =>
    refine holdings_eq_none.mpr fun r hr hloc => hunique ⟨r, hr, fun hid => ?_, hloc, s, hs, rfl⟩
    exact hne (hloc.symm.trans (congrArg _ (eq_of_key hr hs hid)))

lemma holdings_setSourceContent (hs : s ∈ t.sources)
    (h : t.setSourceContent s.id contentId = .ok t') :
    ∃ c ∈ t.contents, c.id = contentId ∧ t'.contents = t.contents ∧
      t'.holdings = Function.update t.holdings s.location (some c) := by
  obtain ⟨hcontents, ⟨c, hc, hcid⟩, hmem⟩ := setSourceContent_eq_ok h
  refine ⟨c, hc, hcid, hcontents, funext fun name => ?_⟩
  by_cases hname : name = s.location
  · subst hname
    rw [update_self, holdings_eq_some, hcontents]
    exact ⟨{ s with torrentId := contentId }, (hmem _).mpr (.inr ⟨s, hs, rfl, rfl⟩), rfl, hc,
      hcid⟩
  · rw [update_of_ne hname]
    refine holdings_of_ne hs hname hcontents fun r hloc => ?_
    rw [hmem r, or_iff_left]
    rintro ⟨r', hr', hid, rfl⟩
    obtain rfl := eq_of_key hr' hs hid
    exact hname hloc.symm

lemma holdings_insertSource
    (h : t.insertSource contentId sourcePath filename = .ok (t', sourceId)) :
    ∃ c ∈ t.contents, c.id = contentId ∧ t'.contents = t.contents ∧
      t'.holdings = Function.update t.holdings (sourcePath, filename) (some c) := by
  unfold insertSource at h
  split at h
  · cases h
  · next hunique =>
    split at h
    · next hforeign =>
      split at h
      · cases h
      · next sources id hinsert =>
        cases h
        obtain ⟨c, hc, hcid⟩ := hforeign
        have hmem := (insert_eq_ok hinsert).1
        refine ⟨c, hc, hcid, rfl, funext fun name => ?_⟩
        by_cases hname : name = (sourcePath, filename)
        · subst hname
          rw [update_self, holdings_eq_some]
          exact ⟨_, (hmem _).mpr (.inr rfl), rfl, hc, hcid⟩
        · rw [update_of_ne hname]
          ext c'
          rw [holdings_eq_some, holdings_eq_some]
          constructor
          · rintro ⟨s', hs', hloc, hc', hid⟩
            rcases (hmem s').mp hs' with hs' | rfl
            · exact ⟨s', hs', hloc, hc', hid⟩
            · exact absurd hloc.symm hname
          · rintro ⟨s', hs', hloc, hc', hid⟩
            exact ⟨s', (hmem s').mpr (.inl hs'), hloc, hc', hid⟩
    · cases h

lemma holdings_insertContent {row : ℕ → Content} {hrow : ∀ id, (row id).id = id}
    {files : List FileEntry} (h : t.insertContent row hrow files = .ok (t', contentId)) :
    t'.holdings = t.holdings ∧ t'.sources = t.sources ∧
      ∀ c, c ∈ t'.contents ↔ c ∈ t.contents ∨ c = row contentId := by
  unfold insertContent at h
  split at h
  · cases h
  · next contents id hinsert =>
    split at h
    · cases h
    · next fileTables _ =>
      cases h
      obtain ⟨hmem, hfresh⟩ := insert_eq_ok hinsert
      refine ⟨funext fun name => ?_, rfl, hmem⟩
      ext c
      rw [holdings_eq_some, holdings_eq_some]
      constructor
      · rintro ⟨s, hs, hloc, hc, hid⟩
        rcases (hmem c).mp hc with hc | rfl
        · exact ⟨s, hs, hloc, hc, hid⟩
        · -- the new id is none that a source can point at
          obtain ⟨c', hc', hid'⟩ := t.foreign s hs
          rw [hrow] at hid
          exact absurd (hid'.trans hid.symm) (hfresh c' hc')
      · rintro ⟨s, hs, hloc, hc, hid⟩
        exact ⟨s, hs, hloc, (hmem c).mpr (.inl hc), hid⟩

end Statements

end TorrentTables

end TorrentFs.Db
