import TorrentFs.Download.EngineReads
import TorrentFs.Wrapper.TrackerJson

/-!
# Tracker lists of handles

A handle starts with the trackers of the torrent file it is created from. Another file with the
same info hash adds the trackers that are new, unless one of the two torrents is private. The list
crosses the boundary to the wrapper as JSON, in both directions, whenever something is added. What
libtorrent makes of a list it is given is a parameter.
-/

namespace TorrentFs.Download

open Json Text Utf8 Wrapper List Option FinMap TrackerEntry

/-! ### The calls -/

/-- What a torrent file says, with its trackers and the private flag. -/
structure TorrentFile extends TorrentInfo where
  isPrivate : Bool
  trackers : List AnnounceEntry

/-- What libtorrent does with tracker lists. -/
structure SessionTrackers where
  /-- `trackers` of a torrent whose list was last set to this one. -/
  reported : List AnnounceEntry → List AnnounceEntry
  /-- The list of a torrent that has one when `add_torrent` brings it again with another. -/
  readded : List AnnounceEntry → List AnnounceEntry → List AnnounceEntry

/-- A list of `steady` entries is reported as it was given. Which entries are steady depends on the
session: it leaves empty URLs out, and tiers and `prefer_udp_trackers` can move an entry. -/
def SessionTrackers.Keeps (lt : SessionTrackers) (steady : AnnounceEntry → Prop) : Prop :=
  ∀ l, (∀ t ∈ l, steady t) → lt.reported l = l

/-- `EngineState` with the private flags, and with the tracker list that each torrent in the
session was last given. -/
structure TrackedEngine extends EngineState where
  privateTorrents : FinMap Str Bool
  session : FinMap Str (List AnnounceEntry)

/-- Which calls of a merge into the wrapper go through. -/
structure MergeCalls where
  infoTrackers : Bool
  handleTrackers : Bool
  replaceTrackers : Bool

def addNew (seen : List Str) (merged : List TrackerEntry) : List TrackerEntry → List TrackerEntry
  | [] => merged
  | t :: incoming =>
    if t.url ∈ seen then addNew seen merged incoming
    else addNew (t.url :: seen) (merged ++ [t]) incoming

def mergedTrackers (existing incoming : List TrackerEntry) : List TrackerEntry :=
  addNew (existing.map TrackerEntry.url) existing incoming

/-- `add_torrent`, on the lists that the torrents were given. -/
def addTorrent (lt : SessionTrackers) (session : FinMap Str (List AnnounceEntry)) (infoHash : Str)
    (trackers : List AnnounceEntry) : FinMap Str (List AnnounceEntry) :=
  session.insert infoHash (((session.get infoHash).map (lt.readded · trackers)).getD trackers)

/-- `TorrentHandle::replace_trackers`: the list libtorrent is given, `none` when it is given
none. -/
def replaceTrackers (calls : MergeCalls) (entries : List TrackerEntry) :
    Option (List AnnounceEntry) :=
  if 0 ∈ entriesText entries then none
  else if calls.replaceTrackers then parseTrackersJson (entriesText entries)
  else none

namespace TrackedEngine

variable (lt : SessionTrackers) (fromStr : Bytes → Option (List TrackerEntry))

/-- `ensure_handle`. A torrent that was added stays in the session when a later call fails. -/
def ensureHandle (s : TrackedEngine) (file : TorrentFile) :
    TrackedEngine × Except TorrentError Unit :=
  let (engine, result) := s.toEngineState.ensureHandle file.toTorrentInfo
  match file.infoHash with
  | .error _ => ({ s with toEngineState := engine }, result)
  | .ok infoHash =>
    if infoHash ∈ s.handles then ({ s with toEngineState := engine }, result)
    else
      ({ toEngineState := engine
         privateTorrents :=
           match result with
           | .ok _ => s.privateTorrents.insert infoHash file.isPrivate
           | .error _ => s.privateTorrents
         session :=
           match (s.outside 0).createDirs, (s.outside 0).addTorrent with
           | .ok _, .ok _ => addTorrent lt s.session infoHash file.trackers
           | _, _ => s.session }, result)

def removeHandle (s : TrackedEngine) (infoHash : Str) : TrackedEngine where
  toEngineState := s.toEngineState.removeHandle infoHash
  privateTorrents := s.privateTorrents.erase infoHash
  session := if infoHash ∈ s.handles then s.session.erase infoHash else s.session

/-- The tracker list of the torrent, as libtorrent reports it. -/
def trackers (s : TrackedEngine) (infoHash : Str) : Option (List AnnounceEntry) :=
  (s.session.get infoHash).map lt.reported

/-- A tracker list as it arrives from the wrapper. -/
def readTrackers (trackers : List AnnounceEntry) : Option (List TrackerEntry) :=
  fromStr (repair (cStr (trackersToJson trackers)))

def mergedList (s : TrackedEngine) (file : TorrentFile) (calls : MergeCalls) :
    Option (Str × List AnnounceEntry) := do
  let infoHash ← file.infoHash.toOption
  guard (infoHash ∈ s.handles)
  -- a flag that is missing counts as private
  guard (file.isPrivate = false ∧ (s.privateTorrents.get infoHash).getD true = false)
  guard (calls.infoTrackers = true)
  let incoming ← readTrackers fromStr file.trackers
  guard (incoming ≠ [])
  guard (calls.handleTrackers = true)
  let existing ← (s.trackers lt infoHash).bind (readTrackers fromStr)
  let merged := mergedTrackers existing incoming
  guard (merged.length ≠ existing.length)
  let l ← replaceTrackers calls merged
  return (infoHash, l)

def mergeTrackers (s : TrackedEngine) (file : TorrentFile) (calls : MergeCalls) : TrackedEngine :=
  match mergedList lt fromStr s file calls with
  | none => s
  | some (infoHash, l) => { s with session := s.session.insert infoHash l }

end TrackedEngine

/-! ### Merging two lists -/

lemma addNew_spec (seen : List Str) (merged incoming : List TrackerEntry) :
    ∃ added, addNew seen merged incoming = merged ++ added ∧ added.Sublist incoming ∧
      (added.map TrackerEntry.url).Nodup ∧ ∀ e ∈ added, e.url ∉ seen := by
  induction incoming generalizing seen merged with
  | nil => exact ⟨[], (append_nil merged).symm, List.Sublist.refl _, nodup_nil, nofun⟩
  | cons t incoming ih =>
    have hcons : addNew seen merged (t :: incoming) =
        if t.url ∈ seen then addNew seen merged incoming
        else addNew (t.url :: seen) (merged ++ [t]) incoming := rfl
    rw [hcons]
    split_ifs with hseen
    · obtain ⟨added, heq, hsub, hnodup, hnew⟩ := ih seen merged
      exact ⟨added, heq, hsub.cons t, hnodup, hnew⟩
    · obtain ⟨added, heq, hsub, hnodup, hnew⟩ := ih (t.url :: seen) (merged ++ [t])
      refine ⟨t :: added, by rw [heq, append_assoc]; rfl, hsub.cons_cons t, ?_, ?_⟩
      · rw [map_cons, nodup_cons]
        refine ⟨fun hmem => ?_, hnodup⟩
        obtain ⟨e, he, hurl⟩ := List.mem_map.mp hmem
        exact hnew e he (hurl ▸ mem_cons_self)
      · intro e he
        rcases List.mem_cons.mp he with rfl | he
        · exact hseen
        · exact fun hmem => hnew e he (mem_cons_of_mem _ hmem)

/-! ### What the calls do -/

namespace TrackedEngine

variable {lt : SessionTrackers} {fromStr : Bytes → Option (List TrackerEntry)} {s : TrackedEngine}
  {file : TorrentFile}

/-- The handles and the tracker lists are as before. -/
structure SameLists (s t : TrackedEngine) : Prop where
  handles : t.handles = s.handles
  privateTorrents : t.privateTorrents = s.privateTorrents
  session : t.session = s.session

lemma ensureHandle_cases (s : TrackedEngine) (file : TorrentFile)
    (hinfo : ∀ u v, (s.outside 0).createDirs = .ok u → (s.outside 0).addTorrent = .ok v →
      ∃ w, (s.outside 0).torrentInfo = .ok w) : SameLists s (s.ensureHandle lt file).1 ∨
      ∃ infoHash, file.infoHash = .ok infoHash ∧ infoHash ∉ s.handles ∧
        (s.ensureHandle lt file).1.handles = insert infoHash s.handles ∧
        (s.ensureHandle lt file).1.privateTorrents =
          s.privateTorrents.insert infoHash file.isPrivate ∧
        (s.ensureHandle lt file).1.session = addTorrent lt s.session infoHash file.trackers := by
  unfold ensureHandle EngineState.ensureHandle
  cases hhash : file.infoHash with
  | error e => exact .inl ⟨rfl, rfl, rfl⟩
  | ok infoHash =>
    dsimp only
    by_cases hmem : infoHash ∈ s.handles
    · rw [if_pos hmem, if_pos hmem]
      exact .inl ⟨rfl, rfl, rfl⟩
    · rw [if_neg hmem, if_neg hmem]
      unfold EngineState.ask
      cases hdirs : (s.outside 0).createDirs with
      | error e => exact .inl ⟨rfl, rfl, rfl⟩
      | ok u =>
        cases hadd : (s.outside 0).addTorrent with
        | error e => exact .inl ⟨rfl, rfl, rfl⟩
        | ok v =>
          obtain ⟨w, hw⟩ := hinfo u v hdirs hadd
          rw [hw]
          exact .inr ⟨infoHash, rfl, hmem, rfl, rfl, rfl⟩

/-- What a merge adds to a list: trackers of the file, as they arrive, under URLs that are new and
different. -/
structure AddedBy (l trackers : List AnnounceEntry) (added : List TrackerEntry) : Prop where
  ne_nil : added ≠ []
  incoming : ∀ e ∈ added, ∃ t ∈ trackers, t.lossy = e
  nodup : (added.map TrackerEntry.url).Nodup
  new : ∀ e ∈ added, ∀ t ∈ l, e.url ≠ decodeLossy t.url

namespace AddedBy

variable {l trackers : List AnnounceEntry} {added : List TrackerEntry}

lemma mem_of_announce (h : AddedBy l trackers added) (hutf8 : ∀ t ∈ trackers, IsUtf8 t.url)
    {t : AnnounceEntry} (ht : t ∈ added.map announce) : t ∈ trackers := by
  obtain ⟨e, he, rfl⟩ := List.mem_map.mp ht
  obtain ⟨u, hu, rfl⟩ := h.incoming e he
  rwa [announce_lossy_of_isUtf8 (hutf8 u hu)]

lemma nodup_announce (h : AddedBy l trackers added) :
    ((added.map announce).map AnnounceEntry.url).Nodup := by
  have hurl : (added.map announce).map AnnounceEntry.url =
      (added.map TrackerEntry.url).map encode := by
    simp [announce]
  rw [hurl]
  exact h.nodup.map (Function.LeftInverse.injective decodeLossy_encode)

lemma announce_new (h : AddedBy l trackers added) {t u : AnnounceEntry}
    (ht : t ∈ added.map announce) (hu : u ∈ l) : t.url ≠ u.url := by
  obtain ⟨e, he, rfl⟩ := List.mem_map.mp ht
  intro hurl
  apply h.new e he u hu
  rw [← hurl]
  exact (decodeLossy_encode e.url).symm

end AddedBy

lemma replaceTrackers_eq_some {calls : MergeCalls} {entries : List TrackerEntry}
    {l : List AnnounceEntry} (h : replaceTrackers calls entries = some l) :
    l = entries.map announce := by
  rw [replaceTrackers, if_neg (zero_notMem_entriesText entries), parseTrackersJson_entriesText] at h
  split_ifs at h
  exact (Option.some.inj h).symm

lemma mergedList_eq_some (h : ReadsBack fromStr) {calls : MergeCalls} {infoHash : Str}
    {l' : List AnnounceEntry} (hlist : mergedList lt fromStr s file calls = some (infoHash, l')) :
    file.infoHash = .ok infoHash ∧ file.isPrivate = false ∧
      s.privateTorrents.get infoHash = some false ∧
      ∃ l added, s.trackers lt infoHash = some l ∧ AddedBy l file.trackers added ∧
        l' = (l.map AnnounceEntry.lossy ++ added).map announce := by
  simp only [mergedList, bind_eq_bind, bind_eq_some_iff, guard_eq_some',
    exists_const] at hlist
  obtain ⟨hash, hhash, -, ⟨hprivate, hflag⟩, -, incoming, hincoming, -, -, existing,
    ⟨l, hl, hexisting⟩, hlength, l'', hreplace, heq⟩ := hlist
  cases heq
  obtain rfl : file.trackers.map AnnounceEntry.lossy = incoming :=
    Option.some.inj ((fromStr_trackersToJson h file.trackers).symm.trans hincoming)
  obtain rfl : l.map AnnounceEntry.lossy = existing :=
    Option.some.inj ((fromStr_trackersToJson h l).symm.trans hexisting)
  obtain ⟨added, hmerged, hsub, hnodup, hnew⟩ := addNew_spec
    ((l.map AnnounceEntry.lossy).map TrackerEntry.url) (l.map AnnounceEntry.lossy)
    (file.trackers.map AnnounceEntry.lossy)
  rw [mergedTrackers, hmerged] at hlength hreplace
  refine ⟨?_, hprivate, ?_, l, added, hl, ⟨?_, ?_, hnodup, ?_⟩, replaceTrackers_eq_some hreplace⟩
  · cases hfile : file.infoHash with
    | error e =>
      rw [hfile] at hhash
      cases hhash
    | ok hash =>
      rw [hfile] at hhash
      exact congrArg Except.ok (Option.some.inj hhash)
  · cases hget : s.privateTorrents.get infoHash with
    | none => simp [hget] at hflag
    | some flag => simpa [hget] using hflag
  · rintro rfl
    simp at hlength
  · intro e he
    exact List.mem_map.mp (hsub.subset he)
  · intro e he t ht hurl
    apply hnew e he
    rw [List.map_map]
    exact List.mem_map.mpr ⟨t, ht, hurl.symm⟩

lemma mergeTrackers_of_mem (h : ReadsBack fromStr) (calls : MergeCalls) {infoHash : Str}
    {l : List AnnounceEntry} (hhash : file.infoHash = .ok infoHash)
    (hl : s.trackers lt infoHash = some l)
    (hmem : ∀ t ∈ file.trackers, t.url ∈ l.map AnnounceEntry.url) :
    s.mergeTrackers lt fromStr file calls = s := by
  rw [mergeTrackers]
  split
  · rfl
  · next infoHash' l' hlist =>
    exfalso
    obtain ⟨hhash', -, -, l₀, added, hl₀, hadded, -⟩ := mergedList_eq_some h hlist
    cases hhash.symm.trans hhash'
    cases hl.symm.trans hl₀
    -- something is added, but it was there
    obtain ⟨e, he⟩ := exists_mem_of_ne_nil added hadded.ne_nil
    obtain ⟨t, ht, rfl⟩ := hadded.incoming e he
    obtain ⟨u, hu, hurl⟩ := List.mem_map.mp (hmem t ht)
    exact hadded.new _ he u hu (by rw [hurl]; rfl)

end TrackedEngine

/-! ### Histories -/

/-- The engine with a record of the files: the one each handle was created from, and all that have
been handed to a call. -/
structure TrackerHistory where
  engine : TrackedEngine
  createdFrom : FinMap Str TorrentFile
  files : List TorrentFile

/-- The calls, with what the outside does in each of them. -/
inductive TrackerAction
  | ensureHandle (file : TorrentFile) (answers : Answers)
  | removeHandle (infoHash : Str)
  | mergeTrackers (file : TorrentFile) (calls : MergeCalls)

/-- The list of a handle goes on after the trackers of the file it was created from: with different
URLs that are not among them, each from a file with the info hash. -/
structure Continues (files : List TorrentFile) (infoHash : Str) (file : TorrentFile)
    (added : List AnnounceEntry) : Prop where
  nodup : (added.map AnnounceEntry.url).Nodup
  new : ∀ t ∈ added, ∀ u ∈ file.trackers, t.url ≠ u.url
  offered : ∀ t ∈ added, ∃ f ∈ files, f.infoHash = .ok infoHash ∧
    t.url ∈ f.trackers.map AnnounceEntry.url

/-- What is known of the handle that was created from `file`. -/
structure Tracked (steady : AnnounceEntry → Prop) (s : TrackedEngine) (files : List TorrentFile)
    (infoHash : Str) (file : TorrentFile) : Prop where
  hash : file.infoHash = .ok infoHash
  offered : file ∈ files
  flag : s.privateTorrents.get infoHash = some file.isPrivate
  list : ∃ added, s.session.get infoHash = some (file.trackers ++ added) ∧
    Continues files infoHash file added ∧ (file.isPrivate = true → added = []) ∧
    (file.isPrivate = false → ∀ t ∈ file.trackers ++ added, IsUtf8 t.url ∧ steady t)

variable {lt : SessionTrackers} {steady : AnnounceEntry → Prop}

lemma Tracked.mono {s t : TrackedEngine} {files files' : List TorrentFile} {infoHash : Str}
    {file : TorrentFile} (h : Tracked steady s files infoHash file) (hfiles : files ⊆ files')
    (hflag : t.privateTorrents.get infoHash = s.privateTorrents.get infoHash)
    (hlist : t.session.get infoHash = s.session.get infoHash) :
    Tracked steady t files' infoHash file where
  hash := h.hash
  offered := hfiles h.offered
  flag := hflag.trans h.flag
  list := by
    obtain ⟨added, hget, hcont, hrest⟩ := h.list
    refine ⟨added, hlist.trans hget, ⟨hcont.nodup, hcont.new, fun t ht => ?_⟩, hrest⟩
    obtain ⟨f, hf, hoffered⟩ := hcont.offered t ht
    exact ⟨f, hfiles hf, hoffered⟩

lemma Tracked.reported {s : TrackedEngine} {files : List TorrentFile} {infoHash : Str}
    {file : TorrentFile} (h : Tracked steady s files infoHash file) (hkeeps : lt.Keeps steady)
    (hpublic : file.isPrivate = false) : s.trackers lt infoHash = s.session.get infoHash := by
  obtain ⟨added, hget, -, -, hclean⟩ := h.list
  rw [TrackedEngine.trackers, hget, Option.map_some,
    hkeeps _ fun t ht => (hclean hpublic t ht).2]

lemma Tracked.merge {engine : TrackedEngine} {files : List TorrentFile} {infoHash : Str}
    {file file' : TorrentFile} {l : List AnnounceEntry} {added : List TrackerEntry}
    (h : Tracked steady engine files infoHash file') (hkeeps : lt.Keeps steady)
    (hhash : file.infoHash = .ok infoHash) (hfile : ∀ t ∈ file.trackers, IsUtf8 t.url ∧ steady t)
    (hflag : engine.privateTorrents.get infoHash = some false)
    (hl : engine.trackers lt infoHash = some l)
    (hadded : TrackedEngine.AddedBy l file.trackers added) {after : TrackedEngine}
    (hflags : after.privateTorrents = engine.privateTorrents)
    (hsession : after.session = engine.session.insert infoHash
      ((l.map AnnounceEntry.lossy ++ added).map announce)) :
    Tracked steady after (file :: files) infoHash file' := by
  have hpublic : file'.isPrivate = false := (Option.some.inj (h.flag.symm.trans hflag))
  have hutf8 := fun t ht => (hfile t ht).1
  rw [h.reported hkeeps hpublic] at hl
  obtain ⟨added₀, hget, hcont, -, hclean⟩ := h.list
  cases hl.symm.trans hget
  have hback : (file'.trackers ++ added₀).map (announce ∘ AnnounceEntry.lossy) =
      file'.trackers ++ added₀ :=
    (map_congr_left fun t ht => announce_lossy_of_isUtf8 (hclean hpublic t ht).1).trans
      (List.map_id _)
  refine ⟨h.hash, .tail _ h.offered, by rw [hflags]; exact h.flag,
    added₀ ++ added.map announce, ?_, ⟨?_, ?_, ?_⟩, ?_, ?_⟩
  · rw [hsession, get_insert_self, map_append, List.map_map, hback, append_assoc]
  · rw [map_append, nodup_append']
    refine ⟨hcont.nodup, hadded.nodup_announce, ?_⟩
    intro url hurl hurl'
    obtain ⟨u, hu, rfl⟩ := List.mem_map.mp hurl
    obtain ⟨t, ht, heq⟩ := List.mem_map.mp hurl'
    exact hadded.announce_new ht (mem_append_right _ hu) heq
  · intro t ht u hu
    rcases List.mem_append.mp ht with ht | ht
    · exact hcont.new t ht u hu
    · exact hadded.announce_new ht (mem_append_left _ hu)
  · intro t ht
    rcases List.mem_append.mp ht with ht | ht
    · obtain ⟨f, hf, hoffered⟩ := hcont.offered t ht
      exact ⟨f, .tail _ hf, hoffered⟩
    · exact ⟨file, mem_cons_self, hhash,
        List.mem_map_of_mem (hadded.mem_of_announce hutf8 ht)⟩
  · intro hprivate
    rw [hpublic] at hprivate
    cases hprivate
  · intro _ t ht
    rw [← append_assoc] at ht
    rcases List.mem_append.mp ht with ht | ht
    · exact hclean hpublic t ht
    · exact hfile t (hadded.mem_of_announce hutf8 ht)

/-- The file is private, or its trackers are steady and survive the way through the wrapper. -/
def TorrentFile.Clean (steady : AnnounceEntry → Prop) (file : TorrentFile) : Prop :=
  file.isPrivate = true ∨ ∀ t ∈ file.trackers, IsUtf8 t.url ∧ steady t

namespace TrackerHistory

variable (lt : SessionTrackers) (fromStr : Bytes → Option (List TrackerEntry))
  (steady : AnnounceEntry → Prop)

/-- The history that begins with this engine. -/
def start (engine : EngineState) : TrackerHistory := ⟨⟨engine, .empty, .empty⟩, .empty, []⟩

def recordCreated (s : TrackerHistory) (after : TrackedEngine) (file : TorrentFile) :
    FinMap Str TorrentFile :=
  match file.infoHash with
  | .error _ => s.createdFrom
  | .ok infoHash =>
    if infoHash ∈ after.handles ∧ infoHash ∉ s.engine.handles then
      s.createdFrom.insert infoHash file
    else s.createdFrom

def step (s : TrackerHistory) : TrackerAction → Option TrackerHistory
  | .ensureHandle file answers =>
    let engine := ({ s.engine with outside := fun _ => answers }.ensureHandle lt file).1
    some ⟨engine, s.recordCreated engine file, file :: s.files⟩
  | .removeHandle infoHash =>
    some ⟨s.engine.removeHandle infoHash, s.createdFrom.erase infoHash, s.files⟩
  | .mergeTrackers file calls =>
    some ⟨s.engine.mergeTrackers lt fromStr file calls, s.createdFrom, file :: s.files⟩

/-- The tracker lists of the handles are kept apart: a private torrent was given one list, that of
its file, and the list of a public one goes on after that of its file. -/
structure Isolated (s : TrackerHistory) : Prop where
  handles : ∀ infoHash, infoHash ∈ s.engine.handles ↔
    ∃ file, s.createdFrom.get infoHash = some file
  created : ∀ infoHash file, s.createdFrom.get infoHash = some file →
    file.infoHash = .ok infoHash ∧ file ∈ s.files
  ofPrivate : ∀ infoHash file, s.createdFrom.get infoHash = some file → file.isPrivate = true →
    s.engine.session.get infoHash = some file.trackers
  ofPublic : ∀ infoHash file, s.createdFrom.get infoHash = some file → file.isPrivate = false →
    ∃ added, s.engine.trackers lt infoHash = some (file.trackers ++ added) ∧
      Continues s.files infoHash file added
  unchanged : ∀ file calls infoHash l, file.infoHash = .ok infoHash →
    s.engine.trackers lt infoHash = some l →
    (∀ t ∈ file.trackers, t.url ∈ l.map AnnounceEntry.url) →
    s.engine.mergeTrackers lt fromStr file calls = s.engine

/-- The trackers of public torrents are clean, and a torrent that was added can be queried. -/
def Admissible (_ : TrackerHistory) : TrackerAction → Prop
  | .ensureHandle file answers => file.Clean steady ∧
    ∀ u v, answers.createDirs = .ok u → answers.addTorrent = .ok v →
      ∃ w, answers.torrentInfo = .ok w
  | .removeHandle _ => True
  | .mergeTrackers file _ => file.Clean steady

/-- Each handle has the trackers of the public file it came from. -/
structure Followed (s : TrackerHistory) : Prop where
  handles : ∀ infoHash, infoHash ∈ s.engine.handles ↔
    ∃ file, s.createdFrom.get infoHash = some file
  tracked : ∀ infoHash file, s.createdFrom.get infoHash = some file →
    Tracked steady s.engine s.files infoHash file
  session : ∀ infoHash, infoHash ∉ s.engine.handles → s.engine.session.get infoHash = none

variable {lt fromStr steady} {s : TrackerHistory} {file : TorrentFile} {infoHash : Str}

lemma followed_start {engine : EngineState} (h : engine.handles = ∅) :
    (start engine).Followed steady := by
  refine ⟨fun infoHash => ?_, nofun, fun _ _ => rfl⟩
  simp [start, h]

lemma Followed.same (h : s.Followed steady) {engine : TrackedEngine}
    (hsame : s.engine.SameLists engine) (file : TorrentFile) :
    Followed steady ⟨engine, s.createdFrom, file :: s.files⟩ where
  handles infoHash := by
    rw [hsame.handles]
    exact h.handles infoHash
  tracked infoHash file₀ hfile := by
    apply (h.tracked infoHash file₀ hfile).mono (subset_cons_self _ _)
    · rw [hsame.privateTorrents]
    · rw [hsame.session]
  session infoHash hmem := by
    rw [hsame.session]
    rw [hsame.handles] at hmem
    exact h.session infoHash hmem

lemma Followed.create (h : s.Followed steady) (hclean : file.Clean steady) {engine : TrackedEngine}
    (hhash : file.infoHash = .ok infoHash) (hnew : infoHash ∉ s.engine.handles)
    (hhandles : engine.handles = insert infoHash s.engine.handles)
    (hflags : engine.privateTorrents = s.engine.privateTorrents.insert infoHash file.isPrivate)
    (hsession : engine.session = addTorrent lt s.engine.session infoHash file.trackers) :
    Followed steady ⟨engine, s.createdFrom.insert infoHash file, file :: s.files⟩ := by
  have hinsert : engine.session = s.engine.session.insert infoHash file.trackers := by
    rw [hsession, addTorrent, h.session infoHash hnew]
    rfl
  refine ⟨fun infoHash' => ?_, fun infoHash' file' hfile => ?_, fun infoHash' hmem => ?_⟩
  · rw [hhandles, Finset.mem_insert, get_insert, h.handles infoHash']
    by_cases heq : infoHash' = infoHash <;> simp [heq]
  · by_cases heq : infoHash' = infoHash
    · subst heq
      rw [get_insert_self] at hfile
      cases hfile
      refine ⟨hhash, mem_cons_self, by rw [hflags, get_insert_self], [], ?_,
        ⟨nodup_nil, nofun, nofun⟩, fun _ => rfl, fun hpublic => ?_⟩
      · rw [hinsert, get_insert_self, append_nil]
      · rw [append_nil]
        exact hclean.resolve_left (by rw [hpublic]; exact Bool.false_ne_true)
    · rw [get_insert_ne _ heq] at hfile
      apply (h.tracked infoHash' file' hfile).mono (subset_cons_self _ _)
      · rw [hflags, get_insert_ne _ heq]
      · rw [hinsert, get_insert_ne _ heq]
  · rw [hhandles, Finset.mem_insert, not_or] at hmem
    rw [hinsert, get_insert_ne _ hmem.1]
    exact h.session infoHash' hmem.2

lemma Followed.remove (h : s.Followed steady) (infoHash : Str) :
    Followed steady ⟨s.engine.removeHandle infoHash, s.createdFrom.erase infoHash, s.files⟩ := by
  have hsession : (s.engine.removeHandle infoHash).session = s.engine.session.erase infoHash := by
    by_cases hmem : infoHash ∈ s.engine.handles
    · exact if_pos hmem
    · exact (if_neg hmem).trans (erase_of_get_none (h.session infoHash hmem)).symm
  have hhandles : (s.engine.removeHandle infoHash).handles = s.engine.handles.erase infoHash := rfl
  have hflags : (s.engine.removeHandle infoHash).privateTorrents =
      s.engine.privateTorrents.erase infoHash := rfl
  refine ⟨fun infoHash' => ?_, fun infoHash' file' hfile => ?_, fun infoHash' hmem => ?_⟩
  · rw [hhandles, Finset.mem_erase, get_erase, h.handles infoHash']
    by_cases heq : infoHash' = infoHash <;> simp [heq]
  · rw [get_erase] at hfile
    split_ifs at hfile with heq
    apply (h.tracked infoHash' file' hfile).mono (List.Subset.refl _)
    · rw [hflags, get_erase, if_neg heq]
    · rw [hsession, get_erase, if_neg heq]
  · rw [hsession, get_erase]
    split_ifs with heq
    · rfl
    · exact h.session infoHash' fun hmem' => hmem (Finset.mem_erase.mpr ⟨heq, hmem'⟩)

section

variable (hread : ReadsBack fromStr) (hkeeps : lt.Keeps steady) (h : s.Followed steady)
include hread hkeeps h

lemma Followed.merge (hclean : file.Clean steady) (calls : MergeCalls) :
    Followed steady
      ⟨s.engine.mergeTrackers lt fromStr file calls, s.createdFrom, file :: s.files⟩ := by
  cases hlist : TrackedEngine.mergedList lt fromStr s.engine file calls with
  | none =>
    rw [TrackedEngine.mergeTrackers, hlist]
    exact h.same ⟨rfl, rfl, rfl⟩ file
  | some r =>
    obtain ⟨infoHash, l'⟩ := r
    obtain ⟨hhash, hpublic, hflag, l, added, hl, hadded, rfl⟩ :=
      TrackedEngine.mergedList_eq_some hread hlist
    have hfile : ∀ t ∈ file.trackers, IsUtf8 t.url ∧ steady t :=
      hclean.resolve_left (by rw [hpublic]; exact Bool.false_ne_true)
    rw [TrackedEngine.mergeTrackers, hlist]
    refine ⟨h.handles, fun infoHash' file' hfrom => ?_, fun infoHash' hmem => ?_⟩
    · by_cases heq : infoHash' = infoHash
      · subst heq
        exact (h.tracked _ _ hfrom).merge hkeeps hhash hfile hflag hl hadded rfl rfl
      · refine (h.tracked infoHash' file' hfrom).mono (subset_cons_self _ _) ?_ ?_
        · rfl
        · exact get_insert_ne _ heq _
    · have heq : infoHash' ≠ infoHash := by
        rintro rfl
        rw [TrackedEngine.trackers, h.session infoHash' hmem] at hl
        cases hl
      exact (get_insert_ne _ heq _).trans (h.session infoHash' hmem)

lemma Followed.step {a : TrackerAction} {t : TrackerHistory} (ha : s.Admissible steady a)
    (hstep : s.step lt fromStr a = some t) : t.Followed steady := by
  cases a with
  | ensureHandle file answers =>
    cases hstep
    obtain ⟨hclean, hinfo⟩ := ha
    rcases TrackedEngine.ensureHandle_cases { s.engine with outside := fun _ => answers } file
        hinfo with
      hsame | ⟨infoHash, hhash, hnew, hhandles, hflags, hsession⟩
    · have hrecord : s.recordCreated
          ({ s.engine with outside := fun _ => answers }.ensureHandle lt file).1 file =
          s.createdFrom := by
        rw [recordCreated, hsame.handles]
        split
        · rfl
        · exact if_neg fun hboth => hboth.2 hboth.1
      rw [hrecord]
      exact h.same ⟨hsame.handles, hsame.privateTorrents, hsame.session⟩ file
    · have hrecord : s.recordCreated
          ({ s.engine with outside := fun _ => answers }.ensureHandle lt file).1 file =
          s.createdFrom.insert infoHash file := by
        rw [recordCreated, hhash]
        exact if_pos ⟨by rw [hhandles]; exact Finset.mem_insert_self _ _, hnew⟩
      rw [hrecord]
      exact h.create hclean hhash hnew hhandles hflags hsession
  | removeHandle infoHash =>
    cases hstep
    exact h.remove infoHash
  | mergeTrackers file calls =>
    cases hstep
    exact h.merge hread hkeeps ha calls

lemma Followed.isolated : s.Isolated lt fromStr where
  handles := h.handles
  created infoHash file hfile := ⟨(h.tracked _ _ hfile).hash, (h.tracked _ _ hfile).offered⟩
  ofPrivate infoHash file hfile hprivate := by
    obtain ⟨added, hget, -, hnil, -⟩ := (h.tracked _ _ hfile).list
    rw [hget, hnil hprivate, append_nil]
  ofPublic infoHash file hfile hpublic := by
    obtain ⟨added, hget, hcont, -⟩ := (h.tracked _ _ hfile).list
    exact ⟨added, ((h.tracked _ _ hfile).reported hkeeps hpublic).trans hget, hcont⟩
  unchanged file calls infoHash l hhash hl hmem :=
    TrackedEngine.mergeTrackers_of_mem hread calls hhash hl hmem

end

/-- After every run of admissible calls the tracker lists are isolated. -/
theorem isolated_of_run (hread : ReadsBack fromStr) (hkeeps : lt.Keeps steady)
    {engine : EngineState} (hengine : engine.handles = ∅) {actions : List TrackerAction}
    {s : TrackerHistory}
    (halong : Run.Along (step lt fromStr) (Admissible steady) (start engine) actions)
    (hrun : Run.runFrom (step lt fromStr) (start engine) actions = some s) :
    s.Isolated lt fromStr := by
  have hstep : ∀ s a t, Followed steady s → Admissible steady s a →
      step lt fromStr s a = some t → Followed steady t :=
    fun _ _ _ h ha hst => h.step hread hkeeps ha hst
  have hfollowed := Run.invariant_of_run_along hstep (followed_start hengine) halong hrun
  exact hfollowed.isolated hread hkeeps

/-! ### Examples -/

def fileOf (isPrivate : Bool) (url : Bytes) : TorrentFile :=
  { EngineState.sampleInfo with isPrivate, trackers := [⟨0, url⟩] }

def mergeOf (url url' : Bytes) : List TrackerAction :=
  [.ensureHandle (fileOf false url) EngineState.sampleAnswers,
    .mergeTrackers (fileOf false url') ⟨true, true, true⟩]

/-- A session that leaves the empty URLs out. -/
def sampleTrackers : SessionTrackers := ⟨fun l => l.filter (·.url ≠ []), fun l _ => l⟩

theorem isolated_after_merge :
    ∃ s, Run.runFrom (step sampleTrackers readEntries) (start EngineState.sampleEngine)
        (mergeOf (utf8 "a") (utf8 "b")) = some s ∧ s.Isolated sampleTrackers readEntries := by
  have hclean : ∀ url, IsUtf8 url → url ≠ [] → (fileOf false url).Clean (·.url ≠ []) := by
    intro url hurl hne
    refine .inr fun t ht => ?_
    rw [List.mem_singleton.mp ht]
    exact ⟨hurl, hne⟩
  have hkeeps : sampleTrackers.Keeps (·.url ≠ []) := fun l hl =>
    List.filter_eq_self.mpr fun t ht => decide_eq_true (hl t ht)
  obtain ⟨s, hs⟩ : ∃ s, Run.runFrom (step sampleTrackers readEntries)
      (start EngineState.sampleEngine) (mergeOf (utf8 "a") (utf8 "b")) = some s := ⟨_, rfl⟩
  refine ⟨s, hs, isolated_of_run readsBack_readEntries hkeeps rfl ?_ hs⟩
  refine (Run.along_cons rfl).mpr ⟨⟨hclean _ (by decide) (by decide), fun _ _ _ _ => ⟨_, rfl⟩⟩, ?_⟩
  exact (Run.along_cons rfl).mpr ⟨hclean _ (by decide) (by decide), trivial⟩

/-- A URL that is no UTF-8 does not survive the merge of another file: the list then begins with a
tracker that no file has. -/
theorem merge_rewrites_url :
    ∃ s, Run.runFrom (step sampleTrackers readEntries) (start EngineState.sampleEngine)
        (mergeOf [0xFF] (utf8 "b")) = some s ∧
      s.engine.trackers sampleTrackers ['a'] = some [⟨0, [0xEF, 0xBF, 0xBD]⟩, ⟨0, utf8 "b"⟩] := by
  decide +kernel

end TrackerHistory

end TorrentFs.Download
