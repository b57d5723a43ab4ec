import TorrentFs.Lib.Sql
import TorrentFs.Db.Restart

/-!
# What version 6 keeps of the torrents

`migrate_v6` splits the table of torrents into contents and sources. Torrents with the same bytes
share one content, which is a copy of the first of them; the files and directories of the others are
deleted, and those of the first get the id of the content. The new ids overlap with the old ones.
-/

namespace TorrentFs.Db

open Text Sql Option Function

/-! ### The torrents of the two versions -/

/-- A torrent as it can be read: its bytes, its columns, and the paths and sizes of its files. -/
structure TorrentView where
  torrentData : Option (List UInt8)
  infoHash : Str
  name : Str
  totalSize : ℕ
  files : List (Str × ℕ)
deriving DecidableEq

def filesOf (files : List TorrentFile) (torrentId : ℕ) : List (Str × ℕ) :=
  (files.filter fun f => f.torrentId = torrentId).map fun f => (f.path, f.size)

def Torrent.view (files : List TorrentFile) (t : Torrent) : TorrentView :=
  ⟨t.torrentData, t.infoHash, t.name, t.totalSize, filesOf files t.id⟩

def Torrent.location (t : Torrent) : Str × Str := (t.sourcePath, t.filename)

namespace Database

def torrentRows (db : Database) : List Torrent := (db.torrents.map Table.rows).getD []

def sourceRows (db : Database) : List TorrentSource := db.torrentSources.getD []

def directoryRows (db : Database) : List TorrentDirectory := db.torrentDirectories.getD []

def closureRows (db : Database) : List Closure := db.directoryClosure.getD []

def fileRows (db : Database) : List TorrentFile := (db.torrentFiles.map Table.rows).getD []

def v5View (db : Database) (location : Str × Str) : Option TorrentView :=
  (db.torrentRows.find? fun t => t.location = location).map (Torrent.view db.fileRows)

def resolveContentId (db : Database) (sourceId : ℕ) : Option ℕ :=
  (db.sourceRows.find? fun s => s.id = sourceId).map TorrentSource.torrentId

def getFilesByTorrentId (db : Database) (sourceId : ℕ) : List TorrentFile :=
  match db.resolveContentId sourceId with
  | none => []
  | some contentId => db.fileRows.filter fun f => f.torrentId = contentId

def contentOf (db : Database) (location : Str × Str) : Option Torrent :=
  (db.sourceRows.find? fun s => (s.sourcePath, s.filename) = location).bind fun s =>
    db.torrentRows.find? fun c => c.id = s.torrentId

def v6View (db : Database) (location : Str × Str) : Option TorrentView :=
  (db.sourceRows.find? fun s => (s.sourcePath, s.filename) = location).bind fun s =>
    (db.torrentRows.find? fun c => c.id = s.torrentId).map fun c =>
      ⟨c.torrentData, c.infoHash, c.name, c.totalSize,
        (db.getFilesByTorrentId s.id).map fun f => (f.path, f.size)⟩

/-- Every file and every directory belongs to a torrent, a file lies in a directory of its torrent
and so does a directory, and the closure is about directories of one torrent. -/
structure Owned (db : Database) : Prop where
  file : ∀ f ∈ db.fileRows, f.torrentId ∈ db.torrentRows.map Torrent.id
  fileDirectory : ∀ f ∈ db.fileRows, ∀ id, f.directoryId = some id →
    ∃ d ∈ db.directoryRows, d.id = id ∧ d.torrentId = f.torrentId
  directory : ∀ d ∈ db.directoryRows, d.torrentId ∈ db.torrentRows.map Torrent.id
  directoryParent : ∀ d ∈ db.directoryRows, ∀ id, d.parentId = some id →
    ∃ p ∈ db.directoryRows, p.id = id ∧ p.torrentId = d.torrentId
  closure : ∀ c ∈ db.closureRows, ∃ a ∈ db.directoryRows, ∃ d ∈ db.directoryRows,
    a.id = c.ancestorId ∧ d.id = c.descendantId ∧ a.torrentId = d.torrentId

/-- The tables of version 5, with unique ids and names and rows that belong to their torrents. -/
structure V5Rows (db : Database) : Prop where
  torrents : ∃ t, db.torrents = some t ∧ v5Columns ⊆ t.columns
  sources : db.torrentSources = none
  directories : db.torrentDirectories.isSome
  closure : db.directoryClosure.isSome
  files : db.torrentFiles.isSome
  ids : (db.torrentRows.map Torrent.id).Nodup
  locations : (db.torrentRows.map Torrent.location).Nodup
  owned : db.Owned

end Database

/-! ### The loop -/

/-- What the loop has built of the torrents `done`: `content` is the content row of each of them. -/
structure SplitInto (done : List Torrent) (s : Database.Split) (content : Torrent → Torrent) :
    Prop where
  contentIds : s.contents.map Torrent.id = List.range' 1 s.contents.length
  sourceIds : s.sources.map TorrentSource.id = List.range' 1 s.sources.length
  sources : s.sources.map (fun x => (x.torrentId, x.sourcePath, x.filename)) =
    done.map fun t => ((content t).id, t.sourcePath, t.filename)
  oldToNew : s.oldToNew = done.map fun t => (t.id, (content t).id)
  mem : ∀ t ∈ done, content t ∈ s.contents
  surj : ∀ c ∈ s.contents, ∃ t ∈ done, content t = c
  data : ∀ t ∈ done, (content t).torrentData = t.torrentData
  shared : ∀ t ∈ done, ∀ u ∈ done,
    content t = content u ↔ t = u ∨ (t.torrentData = u.torrentData ∧ t.torrentData ≠ none)
  first : ∀ t ∈ done, ∃ u ∈ done, content u = content t ∧ u.id ∉ s.duplicateOldIds ∧
    (content t).infoHash = u.infoHash ∧ (content t).name = u.name ∧
    (content t).totalSize = u.totalSize
  duplicates : ∀ t ∈ done, ∀ u ∈ done, content t = content u → t.id ∉ s.duplicateOldIds →
    u.id ∉ s.duplicateOldIds → t = u
  duplicateIds : ∀ id ∈ s.duplicateOldIds, id ∈ done.map Torrent.id

section Loop

variable {done : List Torrent} {s : Database.Split} {content : Torrent → Torrent}

lemma splitInto_nil (content : Torrent → Torrent) : SplitInto [] ⟨[], [], [], []⟩ content where
  contentIds := rfl
  sourceIds := rfl
  sources := rfl
  oldToNew := rfl
  mem := List.forall_mem_nil _
  surj := List.forall_mem_nil _
  data := List.forall_mem_nil _
  shared := List.forall_mem_nil _
  first := List.forall_mem_nil _
  duplicates := List.forall_mem_nil _
  duplicateIds := List.forall_mem_nil _

variable {c t : Torrent}

section

variable (h : SplitInto done s content)
include h

lemma SplitInto.id_le (hc : c ∈ s.contents) : c.id ≤ s.contents.length := by
  have hid := List.mem_map_of_mem (f := Torrent.id) hc
  rw [h.contentIds, List.mem_range'_1] at hid
  omega

lemma SplitInto.nodup_contentIds : (s.contents.map Torrent.id).Nodup := by
  rw [h.contentIds]
  exact List.nodup_range'

/-- A torrent more, with a content that is new or that of the torrents with the same bytes. -/
lemma SplitInto.append (hfresh : t.id ∉ done.map Torrent.id) {contents : List Torrent}
    {duplicateOldIds : List ℕ} (hids : contents.map Torrent.id = List.range' 1 contents.length)
    (hcontents : ∀ c', c' ∈ contents ↔ c' ∈ s.contents ∨ c' = c)
    (hdata : c.torrentData = t.torrentData)
    (hshares : ∀ u ∈ done, content u = c ↔ u.torrentData = t.torrentData ∧ u.torrentData ≠ none)
    (hold : ∀ id ∈ s.duplicateOldIds, id ∈ duplicateOldIds)
    (hnew : ∀ id ∈ duplicateOldIds, id ∈ s.duplicateOldIds ∨ id = t.id)
    (hlast : t.id ∈ duplicateOldIds ∧ c ∈ s.contents ∨ t.id ∉ duplicateOldIds ∧ c ∉ s.contents ∧
      c.infoHash = t.infoHash ∧ c.name = t.name ∧ c.totalSize = t.totalSize) :
    SplitInto (done ++ [t])
      ⟨contents, s.sources ++ [⟨s.sources.length + 1, c.id, t.sourcePath, t.filename⟩],
        s.oldToNew ++ [(t.id, c.id)], duplicateOldIds⟩ (Function.update content t c) := by
  have hne : ∀ u ∈ done, u.id ≠ t.id := fun u hu heq => hfresh (heq ▸ List.mem_map_of_mem hu)
  have hut : ∀ u ∈ done, u ≠ t := fun u hu heq => hne u hu (congrArg Torrent.id heq)
  have hkept : ∀ u ∈ done, Function.update content t c u = content u := fun u hu =>
    update_of_ne (hut u hu) _ _
  have hself : Function.update content t c t = c := update_self _ _ _
  refine ⟨hids, ?_, ?_, ?_, ?_, fun c' hc' => ?_, ?_, ?_, ?_, ?_, fun id hid => ?_⟩
  · rw [List.map_append, h.sourceIds, List.length_append, List.length_singleton,
      List.range'_concat]
    simp [Nat.add_comm]
  · rw [List.map_append, List.map_append, h.sources]
    congr 1
    · exact List.map_congr_left fun u hu => by rw [hkept u hu]
    · simp
  · rw [List.map_append, h.oldToNew]
    dsimp only
    congr 1
    · exact List.map_congr_left fun u hu => by rw [hkept u hu]
    · simp
  · rw [List.forall_mem_append, List.forall_mem_singleton, hself]
    exact ⟨fun u hu => hkept u hu ▸ (hcontents _).mpr (.inl (h.mem u hu)),
      (hcontents c).mpr (.inr rfl)⟩
  · rcases (hcontents c').mp hc' with hc' | rfl
    · obtain ⟨u, hu, heq⟩ := h.surj c' hc'
      exact ⟨u, List.mem_append_left _ hu, (hkept u hu).trans heq⟩
    · exact ⟨t, List.mem_append_right _ (by simp), hself⟩
  · rw [List.forall_mem_append, List.forall_mem_singleton, hself]
    exact ⟨fun u hu => hkept u hu ▸ h.data u hu, hdata⟩
  · simp only [List.forall_mem_append, List.forall_mem_singleton, hself]
    refine ⟨fun u hu => ⟨fun w hw => ?_, ?_⟩, fun u hu => ?_, by simp⟩
    · rw [hkept u hu, hkept w hw]
      exact h.shared u hu w hw
    · rw [hkept u hu, hshares u hu, or_iff_right (hut u hu)]
    · rw [hkept u hu, eq_comm, hshares u hu, or_iff_right (hut u hu).symm]
      exact ⟨fun ⟨heq, hsome⟩ => ⟨heq.symm, heq ▸ hsome⟩,
        fun ⟨heq, hsome⟩ => ⟨heq.symm, heq ▸ hsome⟩⟩
  · have hfirst : ∀ u ∈ done, ∃ w ∈ done ++ [t], Function.update content t c w = content u ∧
        w.id ∉ duplicateOldIds ∧ (content u).infoHash = w.infoHash ∧
        (content u).name = w.name ∧ (content u).totalSize = w.totalSize := by
      intro u hu
      obtain ⟨w, hw, heq, hnot, hcolumns⟩ := h.first u hu
      exact ⟨w, List.mem_append_left _ hw, (hkept w hw).trans heq,
        fun hmem => (hnew _ hmem).elim hnot (hne w hw), hcolumns⟩
    rw [List.forall_mem_append, List.forall_mem_singleton, hself]
    refine ⟨fun u hu => hkept u hu ▸ hfirst u hu, ?_⟩
    rcases hlast with ⟨-, hc⟩ | ⟨hnot, -, hcolumns⟩
    · obtain ⟨first, hmem, rfl⟩ := h.surj c hc
      exact hfirst first hmem
    · exact ⟨t, List.mem_append_right _ (by simp), hself, hnot, hcolumns⟩
  · -- a torrent that is no duplicate has a content of its own
    have hsole : ∀ u ∈ done, content u = c → t.id ∈ duplicateOldIds := fun u hu heq =>
      hlast.elim And.left fun hlast => absurd (heq ▸ h.mem u hu) hlast.2.1
    simp only [List.forall_mem_append, List.forall_mem_singleton, hself]
    refine ⟨fun u hu => ⟨fun w hw heq hu' hw' => ?_, fun heq _ hnot => ?_⟩,
      fun u hu heq hnot => ?_, fun _ _ _ => trivial⟩
    · rw [hkept u hu, hkept w hw] at heq
      exact h.duplicates u hu w hw heq (mt (hold _) hu') (mt (hold _) hw')
    · exact absurd (hsole u hu ((hkept u hu).symm.trans heq)) hnot
    · exact absurd (hsole u hu ((hkept u hu).symm.trans heq.symm)) hnot
  · rw [List.map_append]
    rcases hnew id hid with hid | rfl
    · exact List.mem_append_left _ (h.duplicateIds id hid)
    · exact List.mem_append_right _ (by simp)

lemma SplitInto.known (hfresh : t.id ∉ done.map Torrent.id) {bytes : List UInt8}
    (hdata : t.torrentData = some bytes) (hc : c ∈ s.contents)
    (hcdata : c.torrentData = some bytes) :
    SplitInto (done ++ [t])
      { s with
        sources := s.sources ++ [⟨s.sources.length + 1, c.id, t.sourcePath, t.filename⟩]
        oldToNew := s.oldToNew ++ [(t.id, c.id)]
        duplicateOldIds := s.duplicateOldIds ++ [t.id] }
      (Function.update content t c) := by
  refine h.append hfresh h.contentIds (fun c' => ⟨.inl, fun hc' => hc'.elim id (· ▸ hc)⟩)
    (hcdata.trans hdata.symm) (fun u hu => ?_) (fun id => List.mem_append_left _) (by simp)
    (.inl ⟨by simp, hc⟩)
  obtain ⟨first, hfirst, rfl⟩ := h.surj c hc
  have hbytes : first.torrentData = some bytes := (h.data first hfirst).symm.trans hcdata
  rw [h.shared u hu first hfirst, hbytes, hdata]
  refine or_iff_right_of_imp ?_
  rintro rfl
  exact ⟨hbytes, by simp [hbytes]⟩

lemma SplitInto.new (hfresh : t.id ∉ done.map Torrent.id)
    (hnew : ∀ bytes, t.torrentData = some bytes → ∀ c ∈ s.contents, c.torrentData ≠ some bytes)
    (hid : c.id = s.contents.length + 1) (hdata : c.torrentData = t.torrentData)
    (hcolumns : c.infoHash = t.infoHash ∧ c.name = t.name ∧ c.totalSize = t.totalSize) :
    SplitInto (done ++ [t])
      { s with
        contents := s.contents ++ [c]
        sources := s.sources ++ [⟨s.sources.length + 1, c.id, t.sourcePath, t.filename⟩]
        oldToNew := s.oldToNew ++ [(t.id, c.id)] }
      (Function.update content t c) := by
  have hnot : c ∉ s.contents := fun hc => absurd (h.id_le hc) (by omega)
  refine h.append hfresh ?_ (by simp) hdata (fun u hu => ?_) (fun _ => id) (fun _ => .inl)
    (.inr ⟨fun hmem => hfresh (h.duplicateIds _ hmem), hnot, hcolumns⟩)
  · rw [List.map_append, h.contentIds, List.length_append, List.length_singleton,
      List.range'_concat]
    simp [hid, Nat.add_comm]
  · refine iff_of_false (fun heq => hnot (heq ▸ h.mem u hu)) ?_
    rintro ⟨heq, hsome⟩
    obtain ⟨bytes, hbytes⟩ := Option.ne_none_iff_exists'.mp hsome
    exact hnew bytes (heq ▸ hbytes) (content u) (h.mem u hu) ((h.data u hu).trans hbytes)

lemma SplitInto.splitRow (sqlite : Sqlite) (hfresh : t.id ∉ done.map Torrent.id) :
    ∃ content', SplitInto (done ++ [t]) (Database.splitRow sqlite s t) content' := by
  unfold Database.splitRow
  cases hdata : t.torrentData with
  | none =>
    refine ⟨_, h.new (c := { t with
      id := s.contents.length + 1
      sourcePath := []
      filename := []
      torrentData := none
      contentHash := [] }) hfresh ?_ rfl hdata.symm ⟨rfl, rfl, rfl⟩⟩
    intro bytes hbytes
    rw [hdata] at hbytes
    cases hbytes
  | some bytes =>
    cases hfind : s.contents.find? fun c => c.torrentData = some bytes with
    | some c =>
      have hc : c.torrentData = some bytes := by simpa using List.find?_some hfind
      simp only [bind_some, hfind, map_some, isSome_some, if_true,
        getD_some]
      exact ⟨_, h.known hfresh hdata (List.mem_of_find?_eq_some hfind) hc⟩
    | none =>
      simp only [bind_some, hfind, map_none, isSome_none,
        Bool.false_eq_true, if_false, getD_none]
      refine ⟨_, h.new (c := { t with
        id := s.contents.length + 1
        sourcePath := []
        filename := []
        torrentData := some bytes
        contentHash := sqlite.contentHashOf bytes }) hfresh ?_ rfl hdata.symm ⟨rfl, rfl, rfl⟩⟩
      intro bytes' hbytes' c hc
      rw [hdata, Option.some.injEq] at hbytes'
      subst hbytes'
      simpa using List.find?_eq_none.mp hfind c hc

end

lemma splitInto_foldl (sqlite : Sqlite) (rows : List Torrent) :
    ∀ {done : List Torrent} {s : Database.Split} {content : Torrent → Torrent},
      SplitInto done s content → ((done ++ rows).map Torrent.id).Nodup → ∃ content',
          SplitInto (done ++ rows) (rows.foldl (Database.splitRow sqlite) s) content' := by
  induction rows with
  | nil =>
    intro done s content h _
    exact ⟨content, by rwa [List.append_nil]⟩
  | cons t rows ih =>
    intro done s content h hnodup
    have hfresh : t.id ∉ done.map Torrent.id := by
      intro hmem
      rw [List.map_append] at hnodup
      exact (List.disjoint_of_nodup_append hnodup) hmem (by simp)
    obtain ⟨content', h'⟩ := h.splitRow sqlite hfresh
    have hassoc : done ++ t :: rows = (done ++ [t]) ++ rows := by simp
    rw [hassoc] at hnodup ⊢
    exact ih h' hnodup

end Loop

/-! ### The migration -/

lemma mapM_eq_ok {ε α β : Type} {f : α → Except ε β} {g : α → β} {l : List α}
    (h : ∀ x ∈ l, f x = .ok (g x)) : l.mapM f = .ok (l.map g) := by
  induction l with
  | nil => rfl
  | cons x l ih =>
    rw [List.mapM_cons, h x List.mem_cons_self,
      ih fun y hy => h y (List.mem_cons_of_mem x hy)]
    rfl

lemma lookup_map {α : Type} {key value : α → ℕ} {l : List α} (hnodup : (l.map key).Nodup) {x : α}
    (hx : x ∈ l) : (l.map fun y => (key y, value y)).lookup (key x) = some (value x) := by
  induction l with
  | nil => cases hx
  | cons y l ih =>
    rw [List.map_cons, List.nodup_cons] at hnodup
    rw [List.map_cons, List.lookup_cons]
    rcases List.mem_cons.mp hx with rfl | hx
    · rw [beq_self_eq_true]
    · have hne : key x ≠ key y := fun heq => hnodup.1 (heq ▸ List.mem_map_of_mem hx)
      rw [beq_false_of_ne hne]
      exact ih hnodup.2 hx

namespace Database

def Split.newId (s : Split) (id : ℕ) : ℕ := (s.oldToNew.lookup id).getD 0

def Split.isDuplicate (s : Split) (id : ℕ) : Bool := s.duplicateOldIds.contains id

def splitTables (db : Database) (s : Split) : Database :=
  { db with
    torrents := some ⟨v6Columns, s.contents⟩
    torrentSources := some s.sources
    torrentDirectories := some ((db.directoryRows.filter fun d => !s.isDuplicate d.torrentId).map
      fun d => { d with torrentId := s.newId d.torrentId })
    directoryClosure :=
      let orphanDirs := (db.directoryRows.filter fun d => s.isDuplicate d.torrentId).map
        TorrentDirectory.id
      some (db.closureRows.filter fun c =>
        !(orphanDirs.contains c.ancestorId || orphanDirs.contains c.descendantId))
    torrentFiles := db.torrentFiles.map fun files =>
      { files with
        rows := (files.rows.filter fun f => !s.isDuplicate f.torrentId).map fun f =>
          { f with torrentId := s.newId f.torrentId } } }

section Migration

variable {sqlite : Sqlite} {db : Database} {s : Split} {content : Torrent → Torrent}

variable {t : Torrent}

lemma newId_eq (h : SplitInto db.torrentRows s content)
    (hids : (db.torrentRows.map Torrent.id).Nodup) (ht : t ∈ db.torrentRows) :
    s.oldToNew.lookup t.id = some (content t).id ∧ s.newId t.id = (content t).id := by
  have hlookup : s.oldToNew.lookup t.id = some (content t).id := by
    rw [h.oldToNew]
    exact lookup_map hids ht
  exact ⟨hlookup, by rw [Split.newId, hlookup]; rfl⟩

lemma locations_eq (h : SplitInto db.torrentRows s content) :
    s.sources.map (fun x => (x.sourcePath, x.filename)) = db.torrentRows.map Torrent.location := by
  have hmap := congrArg (List.map Prod.snd) h.sources
  rw [List.map_map, List.map_map] at hmap
  exact hmap

lemma migrateV6_eq_ok (hrows : db.V5Rows)
    (hs : db.torrentRows.foldl (splitRow sqlite) ⟨[], [], [], []⟩ = s)
    (h : SplitInto db.torrentRows s content) : migrateV6 sqlite db = .ok (db.splitTables s) := by
  obtain ⟨t, ht, hcolumns⟩ := hrows.torrents
  obtain ⟨dirs, hdirs⟩ := Option.isSome_iff_exists.mp hrows.directories
  obtain ⟨closure, hclosure⟩ := Option.isSome_iff_exists.mp hrows.closure
  obtain ⟨files, hfiles⟩ := Option.isSome_iff_exists.mp hrows.files
  have htorrentRows : db.torrentRows = t.rows := by rw [torrentRows, ht]; rfl
  have hdirectoryRows : db.directoryRows = dirs := by rw [directoryRows, hdirs]; rfl
  have hclosureRows : db.closureRows = closure := by rw [closureRows, hclosure]; rfl
  have hfileRows : db.fileRows = files.rows := by rw [fileRows, hfiles]; rfl
  have hnames : (s.sources.map fun x => (x.sourcePath, x.filename)).Nodup := by
    rw [locations_eq h]
    exact hrows.locations
  have hrekey : ∀ id ∈ db.torrentRows.map Torrent.id,
      rekey s.oldToNew id = .ok (s.newId id) := by
    intro id hid
    obtain ⟨u, hu, rfl⟩ := List.mem_map.mp hid
    obtain ⟨hlookup, hnew⟩ := newId_eq h hrows.ids hu
    rw [rekey, hlookup, hnew]
  have hmapM : ∀ {ρ : Type} (l : List ρ) (id : ρ → ℕ) (f : ρ → ℕ → ρ),
      (∀ r ∈ l, id r ∈ db.torrentRows.map Torrent.id) →
      (l.filter fun r => !s.isDuplicate (id r)).mapM
          (fun r => (rekey s.oldToNew (id r)).map (f r)) =
        .ok ((l.filter fun r => !s.isDuplicate (id r)).map fun r => f r (s.newId (id r))) := by
    intro ρ l id f hl
    refine mapM_eq_ok fun r hr => ?_
    rw [hrekey _ (hl r (List.mem_of_mem_filter hr))]
    rfl
  have hdirs' := hmapM dirs _ (fun d id => { d with torrentId := id }) fun d hd =>
    hrows.owned.directory d (hdirectoryRows ▸ hd)
  have hfiles' := hmapM files.rows _ (fun f id => { f with torrentId := id }) fun f hf =>
    hrows.owned.file f (hfileRows ▸ hf)
  rw [htorrentRows] at hs
  unfold Split.isDuplicate at hdirs' hfiles'
  unfold migrateV6
  simp only [ht, requireTable, bind, Except.bind, hcolumns, not_true_eq_false, if_false,
    hrows.sources, isSome_none, Bool.false_eq_true, hs, hnames, deleteChildren, hdirs,
    hclosure, hfiles, pure, Except.pure, hdirs', hfiles']
  rw [splitTables, hdirectoryRows, hclosureRows, hfiles]
  rfl

lemma mem_fileRows_splitTables {f' : TorrentFile} :
    f' ∈ (db.splitTables s).fileRows ↔ ∃ f ∈ db.fileRows, s.isDuplicate f.torrentId = false ∧
      { f with torrentId := s.newId f.torrentId } = f' := by
  unfold fileRows splitTables
  cases db.torrentFiles with
  | none => simp
  | some files => simp [and_assoc]

lemma mem_directoryRows_splitTables {d' : TorrentDirectory} :
    d' ∈ (db.splitTables s).directoryRows ↔ ∃ d ∈ db.directoryRows,
      s.isDuplicate d.torrentId = false ∧ { d with torrentId := s.newId d.torrentId } = d' := by
  simp [directoryRows, splitTables, and_assoc]

section

variable (hrows : db.V5Rows) (h : SplitInto db.torrentRows s content)
include hrows h

lemma owned_splitTables : (db.splitTables s).Owned := by
  have hnew : ∀ id ∈ db.torrentRows.map Torrent.id,
      s.newId id ∈ (db.splitTables s).torrentRows.map Torrent.id := by
    intro id hid
    obtain ⟨t, ht, rfl⟩ := List.mem_map.mp hid
    rw [(newId_eq h hrows.ids ht).2]
    exact List.mem_map_of_mem (h.mem t ht)
  have hkept : ∀ d ∈ db.directoryRows, ∀ torrentId, s.isDuplicate torrentId = false →
      d.torrentId = torrentId →
      { d with torrentId := s.newId d.torrentId } ∈ (db.splitTables s).directoryRows := by
    rintro d hd _ hdup rfl
    exact mem_directoryRows_splitTables.mpr ⟨d, hd, hdup, rfl⟩
  constructor
  · intro f' hf'
    obtain ⟨f, hf, -, rfl⟩ := mem_fileRows_splitTables.mp hf'
    exact hnew _ (hrows.owned.file f hf)
  · intro f' hf' id hid
    obtain ⟨f, hf, hdup, rfl⟩ := mem_fileRows_splitTables.mp hf'
    obtain ⟨d, hd, hdid, howner⟩ := hrows.owned.fileDirectory f hf id hid
    exact ⟨_, hkept d hd _ hdup howner, hdid, congrArg s.newId howner⟩
  · intro d' hd'
    obtain ⟨d, hd, -, rfl⟩ := mem_directoryRows_splitTables.mp hd'
    exact hnew _ (hrows.owned.directory d hd)
  · intro d' hd' id hid
    obtain ⟨d, hd, hdup, rfl⟩ := mem_directoryRows_splitTables.mp hd'
    obtain ⟨p, hp, hpid, howner⟩ := hrows.owned.directoryParent d hd id hid
    exact ⟨_, hkept p hp _ hdup howner, hpid, congrArg s.newId howner⟩
  · intro c hc
    -- a pair that is left has no end among the directories that were deleted
    have hc' : c ∈ db.closureRows ∧ ∀ d ∈ db.directoryRows, s.isDuplicate d.torrentId = true →
        c.ancestorId ≠ d.id ∧ c.descendantId ≠ d.id := by
      simp only [closureRows, splitTables, getD_some, List.mem_filter, Bool.not_eq_true',
        Bool.or_eq_false_iff, List.contains_eq_mem, decide_eq_false_iff_not, List.mem_map,
        not_exists, not_and] at hc
      exact ⟨hc.1, fun d hd hdup => ⟨fun heq => hc.2.1 d ⟨hd, hdup⟩ heq.symm,
        fun heq => hc.2.2 d ⟨hd, hdup⟩ heq.symm⟩⟩
    obtain ⟨a, ha, d, hd, haid, hdid, howner⟩ := hrows.owned.closure c hc'.1
    have hadup : s.isDuplicate a.torrentId = false := by
      by_contra hdup
      exact (hc'.2 a ha (by simpa using hdup)).1 haid.symm
    exact ⟨_, hkept a ha _ hadup rfl, _, hkept d hd _ hadup howner.symm, haid, hdid,
      congrArg s.newId howner⟩

lemma filesOf_splitTables (ht : t ∈ db.torrentRows) (hkept : t.id ∉ s.duplicateOldIds) :
    filesOf (db.splitTables s).fileRows (content t).id = filesOf db.fileRows t.id := by
  have hfileRows : (db.splitTables s).fileRows =
      (db.fileRows.filter fun f => !s.isDuplicate f.torrentId).map fun f =>
        { f with torrentId := s.newId f.torrentId } := by
    unfold fileRows splitTables
    cases db.torrentFiles with
    | none | some => rfl
  unfold filesOf
  rw [hfileRows, List.filter_map, List.map_map, List.filter_filter]
  have hfilter : db.fileRows.filter (fun f =>
        ((fun f : TorrentFile => decide (f.torrentId = (content t).id)) ∘ fun f =>
          { f with torrentId := s.newId f.torrentId }) f && !s.isDuplicate f.torrentId) =
      db.fileRows.filter fun f => f.torrentId = t.id := by
    refine List.filter_congr fun f hf => ?_
    obtain ⟨u, hu, hid⟩ := List.mem_map.mp (hrows.owned.file f hf)
    rw [Bool.eq_iff_iff, Bool.and_eq_true, comp_apply, decide_eq_true_iff,
      decide_eq_true_iff, ← hid]
    rw [(newId_eq h hrows.ids hu).2, Split.isDuplicate]
    constructor
    · rintro ⟨hsame, hnot⟩
      have hcontent : content u = content t :=
        List.inj_on_of_nodup_map h.nodup_contentIds (h.mem u hu) (h.mem t ht) hsame
      rw [h.duplicates u hu t ht hcontent (by simpa using hnot) hkept]
    · intro heq
      obtain rfl := List.inj_on_of_nodup_map hrows.ids hu ht heq
      exact ⟨rfl, by simpa using hkept⟩
  rw [hfilter]
  rfl

lemma exists_source (ht : t ∈ db.torrentRows) :
    ∃ x ∈ s.sources, s.sources.find? (fun x => (x.sourcePath, x.filename) = t.location) = some x ∧
      s.contents.find? (fun c => c.id = x.torrentId) = some (content t) ∧
      x.torrentId = (content t).id := by
  have hmem : ((content t).id, t.sourcePath, t.filename) ∈
      s.sources.map fun x => (x.torrentId, x.sourcePath, x.filename) := by
    rw [h.sources]
    exact List.mem_map_of_mem (f := fun u => ((content u).id, u.sourcePath, u.filename)) ht
  obtain ⟨x, hx, heq⟩ := List.mem_map.mp hmem
  obtain ⟨hid, hlocation⟩ := Prod.mk.inj heq
  have hnames : (s.sources.map fun x => (x.sourcePath, x.filename)).Nodup := by
    rw [locations_eq h]
    exact hrows.locations
  exact ⟨x, hx, (find?_unique hnames).mpr ⟨hx, hlocation⟩,
    (find?_unique h.nodup_contentIds).mpr ⟨h.mem t ht, hid.symm⟩, hid⟩

lemma v6View_splitTables {u : Torrent} (ht : t ∈ db.torrentRows) (hu : u ∈ db.torrentRows)
    (hcontent : content u = content t) (hkept : u.id ∉ s.duplicateOldIds)
    (hcolumns : (content t).infoHash = u.infoHash ∧ (content t).name = u.name ∧
      (content t).totalSize = u.totalSize) :
    (db.splitTables s).v6View t.location = some (u.view db.fileRows) := by
  obtain ⟨x, hx, hsource, hfind, hid⟩ := exists_source hrows h ht
  have hsourceIds : (s.sources.map TorrentSource.id).Nodup := by
    rw [h.sourceIds]
    exact List.nodup_range'
  have hresolve : (db.splitTables s).resolveContentId x.id = some (content t).id := by
    change (s.sources.find? fun y => y.id = x.id).map TorrentSource.torrentId = _
    rw [(find?_unique hsourceIds).mpr ⟨hx, rfl⟩, map_some, hid]
  have hfiles : ((db.splitTables s).getFilesByTorrentId x.id).map (fun f => (f.path, f.size)) =
      filesOf db.fileRows u.id := by
    rw [getFilesByTorrentId, hresolve, ← filesOf_splitTables hrows h hu hkept, hcontent]
    rfl
  change (s.sources.find? fun x => (x.sourcePath, x.filename) = t.location).bind (fun x =>
    (s.contents.find? fun c => c.id = x.torrentId).map fun c => _) = _
  rw [hsource, bind_some, hfind, map_some, hfiles, hcolumns.1, hcolumns.2.1,
    hcolumns.2.2, ← hcontent, h.data u hu]
  rfl

end

lemma v5View_of_mem (hrows : db.V5Rows) (ht : t ∈ db.torrentRows) :
    db.v5View t.location = some (t.view db.fileRows) := by
  rw [v5View, (find?_unique hrows.locations).mpr ⟨ht, rfl⟩]
  rfl

lemma views_eq_none (h : SplitInto db.torrentRows s content) {location : Str × Str}
    (hnot : location ∉ db.torrentRows.map Torrent.location) :
    db.v5View location = none ∧ (db.splitTables s).v6View location = none := by
  have hbefore : db.torrentRows.find? (fun t => t.location = location) = none := by
    refine List.find?_eq_none.mpr fun t ht heq => hnot ?_
    rw [← of_decide_eq_true heq]
    exact List.mem_map_of_mem ht
  have hafter : s.sources.find? (fun x => (x.sourcePath, x.filename) = location) = none := by
    refine List.find?_eq_none.mpr fun x hx heq => hnot ?_
    rw [← locations_eq h, ← of_decide_eq_true heq]
    exact List.mem_map_of_mem (f := fun x : TorrentSource => (x.sourcePath, x.filename)) hx
  constructor
  · rw [v5View, hbefore]
    rfl
  · change (s.sources.find? fun x => (x.sourcePath, x.filename) = location).bind _ = _
    rw [hafter]
    rfl

end Migration

/-- The migration succeeds on every database of version 5 whose rows belong to their torrents. Under
every source path and file name there are the same bytes as before, torrents share a content exactly
when they have the same bytes, and every file, directory and pair that is left belongs to a content.
Everything else of the torrents, with the paths and sizes of their files in their order, is kept
exactly when torrents with the same bytes were alike in it. -/
theorem migrateV6_views (sqlite : Sqlite) (db : Database) (hrows : db.V5Rows) :
    ∃ db', migrateV6 sqlite db = .ok db' ∧
      (∀ location, (db'.v6View location).map TorrentView.torrentData =
        (db.v5View location).map TorrentView.torrentData) ∧
      (∀ t ∈ db.torrentRows, ∀ u ∈ db.torrentRows, ∃ c c', db'.contentOf t.location = some c ∧
        db'.contentOf u.location = some c' ∧
        (c = c' ↔ t = u ∨ (t.torrentData = u.torrentData ∧ t.torrentData ≠ none))) ∧ db'.Owned ∧
      ((∀ location, db'.v6View location = db.v5View location) ↔
        ∀ t ∈ db.torrentRows, ∀ u ∈ db.torrentRows, t.torrentData = u.torrentData →
          t.torrentData ≠ none → t.view db.fileRows = u.view db.fileRows) := by
  obtain ⟨content, h⟩ := splitInto_foldl sqlite db.torrentRows
    (splitInto_nil fun t => t) (by simpa using hrows.ids)
  refine ⟨_, migrateV6_eq_ok hrows rfl h, fun location => ?_, fun t ht u hu => ?_,
    owned_splitTables hrows h, ?_⟩
  · by_cases hmem : location ∈ db.torrentRows.map Torrent.location
    · obtain ⟨t, ht, rfl⟩ := List.mem_map.mp hmem
      obtain ⟨u, hu, hcontent, hkept, hcolumns⟩ := h.first t ht
      rw [v6View_splitTables hrows h ht hu hcontent hkept hcolumns, v5View_of_mem hrows ht]
      have hdata : u.torrentData = t.torrentData := by rw [← h.data u hu, hcontent, h.data t ht]
      exact congrArg some hdata
    · rw [(views_eq_none h hmem).1, (views_eq_none h hmem).2]
  · obtain ⟨x, -, hx, hxfind, -⟩ := exists_source hrows h ht
    obtain ⟨y, -, hy, hyfind, -⟩ := exists_source hrows h hu
    refine ⟨content t, content u, ?_, ?_, h.shared t ht u hu⟩
    · exact Option.bind_eq_some_iff.mpr ⟨x, hx, hxfind⟩
    · exact Option.bind_eq_some_iff.mpr ⟨y, hy, hyfind⟩
  · constructor
    · -- torrents with the same bytes have the same first torrent
      intro hkeeps t ht u hu hdata hsome
      obtain ⟨first, hfirst, hcontent, hkept, hcolumns⟩ := h.first t ht
      have hsame : content t = content u := (h.shared t ht u hu).mpr (.inr ⟨hdata, hsome⟩)
      have hviewt := v6View_splitTables hrows h ht hfirst hcontent hkept hcolumns
      have hviewu := v6View_splitTables hrows h hu hfirst (hcontent.trans hsame) hkept
        (hsame ▸ hcolumns)
      rw [hkeeps, v5View_of_mem hrows ht] at hviewt
      rw [hkeeps, v5View_of_mem hrows hu] at hviewu
      exact Option.some.inj (hviewt.trans hviewu.symm)
    · intro halike location
      by_cases hmem : location ∈ db.torrentRows.map Torrent.location
      · obtain ⟨t, ht, rfl⟩ := List.mem_map.mp hmem
        obtain ⟨u, hu, hcontent, hkept, hcolumns⟩ := h.first t ht
        rw [v6View_splitTables hrows h ht hu hcontent hkept hcolumns, v5View_of_mem hrows ht]
        rcases (h.shared u hu t ht).mp hcontent with rfl | ⟨hdata, hsome⟩
        · rfl
        · rw [halike u hu t ht hdata hsome]
      · rw [(views_eq_none h hmem).1, (views_eq_none h hmem).2]

/-! ### Examples -/

def oneByteTorrent (id : ℕ) (name sourcePath : String) : Torrent :=
  ⟨id, "h".toList, name.toList, 3, 1, [], sourcePath.toList, some [1], none, [], "f".toList, []⟩

def topFile (id torrentId : ℕ) : TorrentFile :=
  ⟨id, torrentId, none, "m".toList, "m".toList, 3, 0, 0⟩

def twoTorrents (first second : String) (files : List TorrentFile) : Database :=
  ⟨5, some ⟨v5Columns, [oneByteTorrent 4 first "a", oneByteTorrent 7 second "b"]⟩, none, some [],
    some [], some ⟨∅, files⟩, some ⟨[], []⟩, ∅⟩

lemma v5Rows_twoTorrents (first second : String) {files : List TorrentFile}
    (hfiles : ∀ f ∈ files, f.torrentId ∈ [4, 7] ∧ f.directoryId = none) :
    (twoTorrents first second files).V5Rows where
  torrents := ⟨_, rfl, subset_rfl⟩
  sources := rfl
  directories := rfl
  closure := rfl
  files := rfl
  ids := show [4, 7].Nodup by decide
  locations := show [("a".toList, "f".toList), ("b".toList, "f".toList)].Nodup by decide
  owned :=
    { file := fun f hf => (hfiles f hf).1
      fileDirectory := fun f hf id hid => by
        rw [(hfiles f hf).2] at hid
        cases hid
      directory := List.forall_mem_nil _
      directoryParent := List.forall_mem_nil _
      closure := List.forall_mem_nil _ }

theorem migrateV6_keeps_twoTorrents : ∃ db', migrateV6 ⟨fun _ => [], id, fun _ _ => Iff.rfl⟩
        (twoTorrents "x" "x" [topFile 1 4, topFile 2 7]) = .ok db' ∧
      ∀ location, db'.v6View location =
        (twoTorrents "x" "x" [topFile 1 4, topFile 2 7]).v5View location := by
  obtain ⟨db', hok, -, -, -, hkeeps⟩ := migrateV6_views ⟨fun _ => [], id, fun _ _ => Iff.rfl⟩
    (twoTorrents "x" "x" [topFile 1 4, topFile 2 7]) (v5Rows_twoTorrents _ _ (by decide))
  refine ⟨db', hok, hkeeps.mpr ?_⟩
  change ∀ t ∈ [oneByteTorrent 4 "x" "a", oneByteTorrent 7 "x" "b"],
    ∀ u ∈ [oneByteTorrent 4 "x" "a", oneByteTorrent 7 "x" "b"], _
  decide

/-- The second of two torrents with the same bytes has another name, and a file where the first one
has none: after the migration it has the name and the files of the first. -/
theorem migrateV6_loses_name : (twoTorrents "x" "y" [topFile 1 7]).V5Rows ∧
    ∃ db', migrateV6 ⟨fun _ => [], id, fun _ _ => Iff.rfl⟩
        (twoTorrents "x" "y" [topFile 1 7]) = .ok db' ∧
      (twoTorrents "x" "y" [topFile 1 7]).v5View ("b".toList, "f".toList) =
        some ⟨some [1], "h".toList, "y".toList, 3, [("m".toList, 3)]⟩ ∧
      db'.v6View ("b".toList, "f".toList) = some ⟨some [1], "h".toList, "x".toList, 3, []⟩ :=
  ⟨v5Rows_twoTorrents _ _ (by decide), _, rfl, by decide, by decide⟩

end Database

end TorrentFs.Db
