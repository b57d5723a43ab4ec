import TorrentFs.Lib.Joined
import TorrentFs.Download.PreCheck
import TorrentFs.Download.Publications

/-!
# The range cache of the file system

`FsService::read_data` keeps the ranges it has read in memory, under the torrent, the file, the
offset and the size. A range that is not there is read from the engine when `pieces_on_disk` finds
its pieces in the cache, and then stored. The check and the read are two steps: the engine may have
to wait for a piece that was evicted in between, and when the wait times out it answers with the
pieces before it. What it answers is stored under the size that was asked for.
-/

namespace TorrentFs.Download

open Text Word Bytes Cache List Option

namespace EngineState

def awaitReply (number : ℕ) : List Iteration → EngineState → Option (EngineState × ReadResult)
  | its, s =>
    match s.replies.find? fun reply => reply.1 = number with
    | some reply => some (s, reply.2)
    | none =>
      match its with
      | [] => none
      | it :: its => (s.step it).bind (awaitReply number its)

/-- What the engine does while a caller waits for a read: the iterations before it receives the
command, the iteration in which it receives it, and those after. -/
structure Schedule where
  before : List Iteration
  finished : List (Str × ℤ)
  answers : ℕ → Answers
  after : List Iteration

def readFileRange (s : EngineState) (w : Schedule) (info : TorrentInfo) (fileIndex : ℤ)
    (offset size : ℕ) : Option (EngineState × ReadResult) :=
  (Run.runFrom step s w.before).bind fun s =>
    (s.step ⟨.command (.readFileRange info fileIndex offset size), w.finished, w.answers⟩).bind
      (awaitReply s.accepted w.after)

/-! ### Replies stay -/

section Replies

variable {s t : EngineState}

lemma Counted.find?_accepted (h : Counted s.ledger) :
    s.replies.find? (fun reply => reply.1 = s.accepted) = none := by
  refine List.find?_eq_none.mpr fun reply hreply heq => ?_
  have hmem : reply.1 ∈ List.range s.accepted :=
    h.subset (by simp [ledger, List.mem_map_of_mem hreply])
  rw [of_decide_eq_true heq] at hmem
  exact not_mem_range_self hmem

lemma awaitReply_of_stopped {number : ℕ} (hstopped : s.isRunning = false)
    (hnone : s.replies.find? (fun reply => reply.1 = number) = none) (its : List Iteration) :
    s.awaitReply number its = none := by
  induction its with
  | nil =>
    rw [awaitReply.eq_def]
    simp only [hnone]
  | cons it its ih =>
    have hstep : s.step it = some s := by
      rw [step, if_neg (by rw [hstopped]; exact Bool.false_ne_true)]
    rw [awaitReply.eq_def]
    simp only [hnone, hstep, bind_some]
    exact ih

lemma run_of_awaitReply {number : ℕ} {result : ReadResult} (its : List Iteration) :
    ∀ {s : EngineState}, s.awaitReply number its = some (t, result) →
      ∃ run, Run.runFrom step s run = some t := by
  induction its with
  | nil =>
    intro s h
    rw [awaitReply.eq_def] at h
    dsimp only at h
    split at h
    · obtain ⟨rfl, -⟩ := Prod.mk.inj (Option.some.inj h)
      exact ⟨[], rfl⟩
    · cases h
  | cons it its ih =>
    intro s h
    rw [awaitReply.eq_def] at h
    dsimp only at h
    split at h
    · obtain ⟨rfl, -⟩ := Prod.mk.inj (Option.some.inj h)
      exact ⟨[], rfl⟩
    · obtain ⟨u, hu, h⟩ := Option.bind_eq_some_iff.mp h
      obtain ⟨run, hrun⟩ := ih h
      exact ⟨it :: run, Run.runFrom_cons_eq_some.mpr ⟨u, hu, hrun⟩⟩

lemma run_of_readFileRange {w : Schedule} {info : TorrentInfo} {fileIndex : ℤ}
    {offset size : ℕ} {result : ReadResult}
    (h : s.readFileRange w info fileIndex offset size = some (t, result)) :
    ∃ run, Run.runFrom step s run = some t := by
  obtain ⟨u, hu, h⟩ := Option.bind_eq_some_iff.mp h
  obtain ⟨v, hv, h⟩ := Option.bind_eq_some_iff.mp h
  obtain ⟨run, hrun⟩ := run_of_awaitReply w.after h
  exact ⟨_, Run.runFrom_append.mpr ⟨u, hu, Run.runFrom_cons_eq_some.mpr ⟨v, hv, hrun⟩⟩⟩

end Replies

end EngineState

/-! ### A read that nothing disturbs -/

def rangeBytes (L : TorrentLayout) (i offset size : ℕ) : List UInt8 :=
  slice (L.fileBytes i) offset (min (offset + size) (L.fileSize i))

/-- While the engine serves the command of a read it sees the cache that was checked, and the piece
files of the range are the pieces of the torrent. The request is not empty and its offset does not
wrap around. -/
structure Quiet (L : TorrentLayout) (infoHash : Str) (i : ℕ) (c : CacheManager)
    (answers : ℕ → Answers) (offset size : ℕ) : Prop where
  size_pos : 1 ≤ size
  offset_lt : L.fileOffset i + offset < 2 ^ 64
  serves : ∀ n, Serves c infoHash L.files L.pieceLength i
    (Touches L.files L.pieceLength i offset size) (answers n)
  holds : offset < L.fileSize i → L.Holds (fun piece => c.pieceFile (pieceKey infoHash piece))
    (L.range i offset size).startPiece (L.range i offset size).endPiece

section Quiet

variable {L : TorrentLayout} {infoHash : Str} {i : ℕ} {c : CacheManager} {answers : ℕ → Answers}
  {offset size : ℕ} {info : TorrentInfo}

lemma rangeBytes_of_le (h : L.fileSize i ≤ offset) : rangeBytes L i offset size = [] := by
  apply eq_nil_of_length_eq_zero
  rw [rangeBytes, length_slice]
  omega

section

variable (hinfo : Describes info infoHash L.files L.pieceLength) (hi : i < L.files.length)
  (hi31 : i < 2 ^ 31) (hsize : size < 2 ^ 32)
  (hcheck : piecesOnDisk c info i offset size = some true)
include hinfo hi hi31 hsize hcheck

lemma startRead_of_quiet (hquiet : Quiet L infoHash i c answers offset size) {s : EngineState}
    (hanswers : s.outside = answers) : ∃ t, s.startRead info i offset size = some t ∧
      t.replies = s.replies ++ [(s.accepted, .ok (rangeBytes L i offset size))] := by
  have hserved : Served c infoHash L i (Touches L.files L.pieceLength i offset size) s :=
    fun n => hanswers ▸ hquiet.serves n
  by_cases hinside : offset < L.fileSize i
  · have hcomplete := complete_of_piecesOnDisk L hinfo hi hi31 hinside hquiet.size_pos hsize hcheck
    have hbytes := L.readFromDisk_range hi hinside hquiet.size_pos (hquiet.holds hinside)
    obtain ⟨t, hstart, -, hreplies⟩ := startRead_of_served hinfo hi hinside hquiet.size_pos hsize
      hcomplete hbytes hserved
    exact ⟨t, hstart, hreplies⟩
  · obtain ⟨t, hstart, -, hreplies⟩ := startRead_past_end hinfo hi hquiet.offset_lt
      (not_lt.mp hinside) hserved size
    rw [rangeBytes_of_le (not_lt.mp hinside)]
    exact ⟨t, hstart, hreplies⟩

lemma readFileRange_eq {w : EngineState.Schedule}
    (hquiet : Quiet L infoHash i c w.answers offset size) {s t : EngineState}
    (hs : EngineState.Counted s.ledger) {result : ReadResult}
    (hread : s.readFileRange w info i offset size = some (t, result)) :
    result = .ok (rangeBytes L i offset size) := by
  obtain ⟨u, hu, hread⟩ := Option.bind_eq_some_iff.mp hread
  obtain ⟨v, hv, hread⟩ := Option.bind_eq_some_iff.mp hread
  have hcounted : EngineState.Counted u.ledger :=
    EngineState.invariant_of_loop EngineState.Act.counted hs hu
  have hunanswered := hcounted.find?_accepted
  by_cases hrunning : u.isRunning = true
  · obtain ⟨x, hstart, hreplies⟩ := startRead_of_quiet hinfo hi hi31 hsize hcheck hquiet
      (s := { u with outside := w.answers }) rfl
    rw [EngineState.step, if_pos hrunning] at hv
    dsimp only [EngineState.handleCommand] at hv
    rw [hstart, map_some, bind_some] at hv
    -- the polls after the command only add replies
    obtain ⟨more, hmore⟩ : x.replies <+: v.replies :=
      EngineState.replies_of_acts (EngineState.acts_poll ⟨.timeout, w.finished, w.answers⟩ hv).1
    have hfound : v.replies.find? (fun reply => reply.1 = u.accepted) =
        some (u.accepted, .ok (rangeBytes L i offset size)) := by
      rw [← hmore, find?_append, hreplies, find?_append]
      rw [hunanswered]
      simp
    rw [EngineState.awaitReply.eq_def] at hread
    simp only [hfound, Option.some.injEq, Prod.mk.injEq] at hread
    exact hread.2.symm
  · rw [Bool.not_eq_true] at hrunning
    have hstep : v = u := by
      rw [EngineState.step, if_neg (by rw [hrunning]; exact Bool.false_ne_true)] at hv
      exact (Option.some.inj hv).symm
    rw [hstep, EngineState.awaitReply_of_stopped hrunning hunanswered] at hread
    cases hread

end

end Quiet

end TorrentFs.Download

namespace TorrentFs.Fuse

open Text Word Bytes Cache Download

/-! ### The cache -/

/-- A torrent as the database has it, with the metadata that its raw bytes parse to. -/
structure CatalogTorrent where
  infoHash : Str
  fileIds : List ℕ
  info : Option TorrentInfo

/-- The torrents of the database by their ids. Several can have one info hash, but a file belongs to
one of them. -/
structure Catalog where
  torrent : ℕ → Option CatalogTorrent
  unique : ∀ {i j fileId : ℕ} {t u : CatalogTorrent}, torrent i = some t → torrent j = some u →
    fileId ∈ t.fileIds → fileId ∈ u.fileIds → t = u

/-- The arguments of `read_data`. -/
structure ReadRequest where
  torrentId : ℕ
  fileId : ℕ
  offset : ℕ
  size : ℕ
  size_lt : size < 2 ^ 32

inductive ReadOutcome
  | ready (data : List UInt8)
  | pending (info : TorrentInfo) (fileIndex : ℤ) (offset size : ℕ) (infoHash : Str)
      (torrentId : ℕ)

/-- The errors of `read_data`: the torrent or the file is not there, its metadata cannot be parsed,
the check fails, or the engine answers with an error. -/
inductive ReadDataError
  | notFound
  | unparsable
  | unchecked
  | engine (error : TorrentError)

def cacheKey (infoHash : Str) (fileId offset size : ℕ) : Str :=
  infoHash ++ ':' :: decimal fileId ++ ':' :: decimal offset ++ ':' :: decimal size

def maxL1Entries : ℕ := 256

/-- The part of `FsService` that `read_data` uses. -/
structure ReadSystem where
  torrentDataCache : FinMap Str (List UInt8)
  /-- The metadata that has been parsed, by info hash. -/
  torrentInfoCache : FinMap Str TorrentInfo
  engine : EngineState

namespace ReadSystem

def store (cache : FinMap Str (List UInt8)) (key : Str) (data : List UInt8) :
    FinMap Str (List UInt8) :=
  (if maxL1Entries ≤ cache.keys.card then FinMap.empty else cache).insert key data

def settle (s : ReadSystem) (key : Str) (size : ℕ) (pending : ReadOutcome) (engine : EngineState) :
    ReadResult → ReadSystem × Except ReadDataError ReadOutcome
  | .error e => ({ s with engine := engine }, .error (.engine e))
  | .ok [] =>
    ({ s with engine := engine }, .ok (if 0 < size then pending else .ready []))
  | .ok (byte :: bytes) =>
    ({ s with torrentDataCache := store s.torrentDataCache key (byte :: bytes), engine := engine },
      .ok (.ready (byte :: bytes)))

/-- `get_or_parse_torrent_info`. -/
def getOrParseTorrentInfo (s : ReadSystem) (t : CatalogTorrent) :
    Option (ReadSystem × TorrentInfo) :=
  match s.torrentInfoCache.get t.infoHash with
  | some info => some (s, info)
  | none => t.info.map fun info =>
    ({ s with torrentInfoCache := s.torrentInfoCache.insert t.infoHash info }, info)

/-- `FsService::read_data`, over the cache directory at the time of the check; `none` when the
engine does not answer. -/
def readData (catalog : Catalog) (s : ReadSystem) (c : CacheManager) (w : EngineState.Schedule)
    (r : ReadRequest) : Option (ReadSystem × Except ReadDataError ReadOutcome) :=
  match catalog.torrent r.torrentId with
  | none => some (s, .error .notFound)
  | some t =>
    if r.fileId ∈ t.fileIds then
      let fileIndex := toI32 (t.fileIds.idxOf r.fileId)
      let key := cacheKey t.infoHash r.fileId r.offset r.size
      match s.torrentDataCache.get key with
      | some cached => some (s, .ok (.ready cached))
      | none =>
        match s.getOrParseTorrentInfo t with
        | none => some (s, .error .unparsable)
        | some (s, info) =>
          let pending :=
            .pending info fileIndex r.offset r.size t.infoHash r.torrentId
          match piecesOnDisk c info fileIndex r.offset r.size with
          | none => some (s, .error .unchecked)
          | some false => some (s, .ok pending)
          | some true =>
            (s.engine.readFileRange w info fileIndex r.offset r.size).map fun answer =>
              s.settle key r.size pending answer.1 answer.2
    else some (s, .error .notFound)

def forget (s : ReadSystem) (infoHash : Str) : ReadSystem :=
  { s with
    torrentDataCache := s.torrentDataCache.filter fun key =>
      !(infoHash ++ [':']).isPrefixOf key }

end ReadSystem

/-- What happens between two looks at the cache: a read, with the cache directory that its check
sees and the engine while it waits, an iteration of the engine, or the removal of a torrent. -/
inductive ReadStep
  | read (r : ReadRequest) (c : CacheManager) (w : EngineState.Schedule)
  | engine (it : Iteration)
  | forget (infoHash : Str)

namespace ReadSystem

def step (catalog : Catalog) (s : ReadSystem) : ReadStep → Option ReadSystem
  | .read r c w => (s.readData catalog c w r).map Prod.fst
  | .engine it => (s.engine.step it).map fun engine => { s with engine := engine }
  | .forget infoHash => some (s.forget infoHash)

/-! ### What is stored -/

section Keys

variable {infoHash infoHash' : Str} {fileId fileId' offset offset' size size' : ℕ}

lemma cacheKey_inj (h : cacheKey infoHash fileId offset size =
    cacheKey infoHash' fileId' offset' size') :
    infoHash = infoHash' ∧ fileId = fileId' ∧ offset = offset' ∧ size = size' := by
  have hdigits : ∀ n, ':' ∉ decimal n := notMem_decimal (by decide)
  obtain ⟨h, hsize⟩ := Joined.append_cons_inj_last (hdigits _) (hdigits _) h
  obtain ⟨h, hoffset⟩ := Joined.append_cons_inj_last (hdigits _) (hdigits _) h
  obtain ⟨h, hfileId⟩ := Joined.append_cons_inj_last (hdigits _) (hdigits _) h
  exact ⟨h, decimal_injective hfileId, decimal_injective hoffset, decimal_injective hsize⟩

end Keys

/-- Every range that is stored is the range of its file. -/
def Right (catalog : Catalog) (contents : Str → TorrentLayout)
    (cache : FinMap Str (List UInt8)) : Prop :=
  ∀ torrentId torrent, catalog.torrent torrentId = some torrent →
    ∀ fileId ∈ torrent.fileIds, ∀ offset size data,
      cache.get (cacheKey torrent.infoHash fileId offset size) = some data →
        data = rangeBytes (contents torrent.infoHash) (torrent.fileIds.idxOf fileId) offset size

section Right

variable {catalog : Catalog} {contents : Str → TorrentLayout} {cache : FinMap Str (List UInt8)}

lemma right_empty : Right catalog contents FinMap.empty := by
  intro torrentId torrent _ fileId _ offset size data hget
  cases hget

lemma Right.mono (h : Right catalog contents cache) {cache' : FinMap Str (List UInt8)}
    (hle : ∀ key data, cache'.get key = some data → cache.get key = some data) :
    Right catalog contents cache' :=
  fun torrentId torrent htorrent fileId hfile offset size data hget =>
    h torrentId torrent htorrent fileId hfile offset size data (hle _ _ hget)

lemma Right.store (h : Right catalog contents cache) {torrentId fileId offset size : ℕ}
    {torrent : CatalogTorrent} (htorrent : catalog.torrent torrentId = some torrent)
    (hfile : fileId ∈ torrent.fileIds) {data : List UInt8}
    (hdata : data = rangeBytes (contents torrent.infoHash) (torrent.fileIds.idxOf fileId) offset
      size) :
    Right catalog contents (store cache (cacheKey torrent.infoHash fileId offset size) data) := by
  have hkept : Right catalog contents
      (if maxL1Entries ≤ cache.keys.card then FinMap.empty else cache) := by
    split
    · exact right_empty
    · exact h
  intro torrentId' torrent' htorrent' fileId' hfile' offset' size' data' hget
  unfold ReadSystem.store at hget
  rw [FinMap.get_insert] at hget
  split at hget
  · next hkey =>
    obtain ⟨-, rfl, rfl, rfl⟩ := cacheKey_inj hkey
    obtain rfl := catalog.unique htorrent' htorrent hfile' hfile
    rw [← Option.some.inj hget]
    exact hdata
  · exact hkept torrentId' torrent' htorrent' fileId' hfile' offset' size' data' hget

end Right

/-! ### Every run of undisturbed reads -/

/-- The metadata is that of the content with this info hash. -/
abbrev Describes (contents : Str → TorrentLayout) (infoHash : Str) (info : TorrentInfo) : Prop :=
  Download.Describes info infoHash (contents infoHash).files (contents infoHash).pieceLength

/-- A read that misses and whose check succeeds is undisturbed. -/
def Undisturbed (catalog : Catalog) (contents : Str → TorrentLayout) (s : ReadSystem) :
    ReadStep → Prop
  | .read r c w =>
    ∀ torrent info, catalog.torrent r.torrentId = some torrent →
      Describes contents torrent.infoHash info →
      r.fileId ∈ torrent.fileIds →
      s.torrentDataCache.get (cacheKey torrent.infoHash r.fileId r.offset r.size) = none →
      piecesOnDisk c info (torrent.fileIds.idxOf r.fileId : ℕ) r.offset r.size = some true →
      Quiet (contents torrent.infoHash) torrent.infoHash (torrent.fileIds.idxOf r.fileId) c
        w.answers r.offset r.size
  | .engine _ | .forget _ => True

/-- The metadata of every torrent describes its content, and the database has a row for each of its
files, in their order. -/
structure Matches (catalog : Catalog) (contents : Str → TorrentLayout) : Prop where
  describes : ∀ {torrentId torrent info}, catalog.torrent torrentId = some torrent →
    torrent.info = some info → Describes contents torrent.infoHash info
  length_eq : ∀ {torrentId torrent}, catalog.torrent torrentId = some torrent →
    torrent.fileIds.length = (contents torrent.infoHash).files.length
  length_lt : ∀ {torrentId torrent}, catalog.torrent torrentId = some torrent →
    torrent.fileIds.length < 2 ^ 31

/-- The ranges and the metadata in memory are right. -/
structure Sound (catalog : Catalog) (contents : Str → TorrentLayout) (s : ReadSystem) : Prop where
  right : Right catalog contents s.torrentDataCache
  described : ∀ infoHash info, s.torrentInfoCache.get infoHash = some info →
    Describes contents infoHash info
  engine : EngineState.Counted s.engine.ledger

section Runs

variable {catalog : Catalog} {contents : Str → TorrentLayout} {s t : ReadSystem}
  {r : ReadRequest} {c : CacheManager} {w : EngineState.Schedule}
  {outcome : Except ReadDataError ReadOutcome}

lemma readData_cases (h : s.readData catalog c w r = some (t, outcome)) :
    t = s ∨ ∃ torrent u info, catalog.torrent r.torrentId = some torrent ∧
      r.fileId ∈ torrent.fileIds ∧
      s.torrentDataCache.get (cacheKey torrent.infoHash r.fileId r.offset r.size) = none ∧
      s.getOrParseTorrentInfo torrent = some (u, info) ∧ (t = u ∨ ∃ engine result pending,
        piecesOnDisk c info (toI32 (torrent.fileIds.idxOf r.fileId)) r.offset r.size = some true ∧
        u.engine.readFileRange w info (toI32 (torrent.fileIds.idxOf r.fileId)) r.offset r.size =
          some (engine, result) ∧
        u.settle (cacheKey torrent.infoHash r.fileId r.offset r.size) r.size pending engine result =
          (t, outcome)) := by
  have hsame : ∀ {u o}, some (u, o) = some (t, outcome) → t = u := by
    intro u o ho
    exact (Prod.mk.inj (Option.some.inj ho)).1.symm
  unfold readData at h
  cases htorrent : catalog.torrent r.torrentId with
  | none =>
    rw [htorrent] at h
    exact .inl (hsame h)
  | some torrent =>
    rw [htorrent] at h
    dsimp only at h
    split at h
    · next hfile =>
      split at h
      · exact .inl (hsame h)
      · next hmiss =>
        split at h
        · exact .inl (hsame h)
        · next u info hinfo =>
          refine .inr ⟨torrent, u, info, rfl, hfile, hmiss, hinfo, ?_⟩
          split at h
          · exact .inl (hsame h)
          · exact .inl (hsame h)
          · next hcheck =>
            obtain ⟨answer, hanswer, hsettle⟩ := Option.map_eq_some_iff.mp h
            exact .inr ⟨answer.1, answer.2, _, hcheck, hanswer, hsettle⟩
    · exact .inl (hsame h)

lemma settle_cases {key : Str} {size : ℕ} {pending : ReadOutcome} {engine : EngineState}
    {result : ReadResult} (h : s.settle key size pending engine result = (t, outcome)) :
    t.engine = engine ∧ t.torrentInfoCache = s.torrentInfoCache ∧
      (t.torrentDataCache = s.torrentDataCache ∨
        ∃ data, result = .ok data ∧ t.torrentDataCache = store s.torrentDataCache key data) := by
  rcases result with e | _ | ⟨byte, bytes⟩
  · obtain ⟨rfl, -⟩ := Prod.mk.inj h
    exact ⟨rfl, rfl, .inl rfl⟩
  · obtain ⟨rfl, -⟩ := Prod.mk.inj h
    exact ⟨rfl, rfl, .inl rfl⟩
  · obtain ⟨rfl, -⟩ := Prod.mk.inj h
    exact ⟨rfl, rfl, .inr ⟨byte :: bytes, rfl, rfl⟩⟩

/-- The metadata of a read is that of its content, whichever torrent with the info hash it was
parsed from. -/
lemma Sound.parsed (hmatches : Matches catalog contents) (h : Sound catalog contents s)
    {torrent : CatalogTorrent} {torrentId : ℕ} {info : TorrentInfo}
    (htorrent : catalog.torrent torrentId = some torrent)
    (hparsed : s.getOrParseTorrentInfo torrent = some (t, info)) :
    Sound catalog contents t ∧ t.torrentDataCache = s.torrentDataCache ∧
      Describes contents torrent.infoHash info := by
  unfold getOrParseTorrentInfo at hparsed
  split at hparsed
  · next hcached =>
    obtain ⟨rfl, rfl⟩ := Prod.mk.inj (Option.some.inj hparsed)
    exact ⟨h, rfl, h.described _ _ hcached⟩
  · obtain ⟨info', hinfo, heq⟩ := Option.map_eq_some_iff.mp hparsed
    obtain ⟨rfl, rfl⟩ := Prod.mk.inj heq
    have hdescribes := hmatches.describes htorrent hinfo
    refine ⟨⟨h.right, fun infoHash info hget => ?_, h.engine⟩, rfl, hdescribes⟩
    rw [FinMap.get_insert] at hget
    split at hget
    · next hhash =>
      rw [← Option.some.inj hget, hhash]
      exact hdescribes
    · exact h.described infoHash info hget

lemma answer_eq_rangeBytes (hmatches : Matches catalog contents) {torrent : CatalogTorrent}
    {info : TorrentInfo} {engine engine' : EngineState} {result : ReadResult}
    (hengine : EngineState.Counted engine.ledger)
    (htorrent : catalog.torrent r.torrentId = some torrent)
    (hinfo : Describes contents torrent.infoHash info) (hfile : r.fileId ∈ torrent.fileIds)
    (hcheck : piecesOnDisk c info (toI32 (torrent.fileIds.idxOf r.fileId)) r.offset r.size =
      some true)
    (hquiet : piecesOnDisk c info (torrent.fileIds.idxOf r.fileId : ℕ) r.offset r.size = some true →
      Quiet (contents torrent.infoHash) torrent.infoHash (torrent.fileIds.idxOf r.fileId) c
        w.answers r.offset r.size)
    (hread : engine.readFileRange w info (toI32 (torrent.fileIds.idxOf r.fileId)) r.offset r.size =
      some (engine', result)) :
    result = .ok (rangeBytes (contents torrent.infoHash) (torrent.fileIds.idxOf r.fileId) r.offset
      r.size) := by
  have hi : torrent.fileIds.idxOf r.fileId < torrent.fileIds.length :=
    List.idxOf_lt_length_iff.mpr hfile
  have hi31 := hi.trans (hmatches.length_lt htorrent)
  rw [toI32_of_lt hi31] at hcheck hread
  exact readFileRange_eq hinfo (hmatches.length_eq htorrent ▸ hi) hi31 r.size_lt hcheck
    (hquiet hcheck) hengine hread

lemma Sound.step (hmatches : Matches catalog contents) (h : Sound catalog contents s)
    {a : ReadStep} (hundisturbed : Undisturbed catalog contents s a)
    (hstep : s.step catalog a = some t) : Sound catalog contents t := by
  cases a with
  | read r c w =>
    obtain ⟨⟨v, outcome⟩, hread, rfl⟩ := Option.map_eq_some_iff.mp hstep
    rcases readData_cases hread with
      rfl | ⟨torrent, u, info, htorrent, hfile, hmiss, hparsed, hrest⟩
    · exact h
    obtain ⟨hu, hsame, hinfo⟩ := h.parsed hmatches htorrent hparsed
    rcases hrest with rfl | ⟨engine, result, pending, hcheck, hanswer, hsettle⟩
    · exact hu
    obtain ⟨run, hrun⟩ := EngineState.run_of_readFileRange hanswer
    have hcounted : EngineState.Counted engine.ledger :=
      EngineState.invariant_of_loop EngineState.Act.counted hu.engine hrun
    have hresult := answer_eq_rangeBytes hmatches hu.engine htorrent hinfo hfile hcheck
      (hundisturbed torrent info htorrent hinfo hfile hmiss) hanswer
    obtain ⟨hengine, hinfos, hcache⟩ := settle_cases hsettle
    refine ⟨?_, hinfos ▸ hu.described, hengine ▸ hcounted⟩
    rcases hcache with hkept | ⟨data, hdata, hstored⟩
    · exact hkept ▸ hu.right
    · rw [hstored]
      exact hu.right.store htorrent hfile (Except.ok.inj (hdata.symm.trans hresult))
  | engine it =>
    obtain ⟨engine, hengine, rfl⟩ := Option.map_eq_some_iff.mp hstep
    exact ⟨h.right, h.described,
      EngineState.invariant_of_step EngineState.Act.counted h.engine hengine⟩
  | forget infoHash =>
    cases hstep
    refine ⟨h.right.mono fun key data hget => ?_, h.described, h.engine⟩
    rw [forget, FinMap.get_filter] at hget
    split at hget
    · exact hget
    · cases hget

lemma readData_of_hit {torrent : CatalogTorrent}
    (htorrent : catalog.torrent r.torrentId = some torrent) (hfile : r.fileId ∈ torrent.fileIds)
    {data : List UInt8} (hhit : s.torrentDataCache.get
      (cacheKey torrent.infoHash r.fileId r.offset r.size) = some data) :
    s.readData catalog c w r = some (s, .ok (.ready data)) := by
  unfold readData
  rw [htorrent]
  dsimp only
  rw [if_pos hfile, hhit]

end Runs

/-- After every run whose reads are undisturbed, a hit returns the bytes of the file from the offset
to the end of the request or of the file, which is what an undisturbed read of the engine returns
for the range. -/
theorem hit_eq_rangeBytes (catalog : Catalog) (contents : Str → TorrentLayout)
    (hmatches : Matches catalog contents) (config : PiecePriorityConfig)
    (cacheCapacityBytes readTimeoutSecs peerDiscoveryWaitSecs : ℕ) (peerWaitCapSecs : Option ℕ)
    (noSeederReadTimeoutSecs : ℕ) (outside : ℕ → Answers) (steps : List ReadStep) (s : ReadSystem)
    (hrun : Run.runFrom (step catalog) ⟨.empty, .empty, .new config cacheCapacityBytes
      readTimeoutSecs peerDiscoveryWaitSecs peerWaitCapSecs noSeederReadTimeoutSecs outside⟩ steps =
      some s)
    (halong : Run.Along (step catalog) (Undisturbed catalog contents)
      ⟨.empty, .empty, .new config cacheCapacityBytes readTimeoutSecs peerDiscoveryWaitSecs
        peerWaitCapSecs noSeederReadTimeoutSecs outside⟩ steps)
    (r : ReadRequest) (torrent : CatalogTorrent)
    (htorrent : catalog.torrent r.torrentId = some torrent) (hfile : r.fileId ∈ torrent.fileIds)
    (data : List UInt8) (hhit : s.torrentDataCache.get
      (cacheKey torrent.infoHash r.fileId r.offset r.size) = some data) :
    (∀ c w, s.readData catalog c w r = some (s, .ok (.ready data))) ∧
    data = rangeBytes (contents torrent.infoHash) (torrent.fileIds.idxOf r.fileId) r.offset r.size ∧
    ∀ (c : CacheManager) (w : EngineState.Schedule) (info : TorrentInfo) (engine : EngineState)
      (result : ReadResult), Describes contents torrent.infoHash info →
      piecesOnDisk c info (toI32 (torrent.fileIds.idxOf r.fileId)) r.offset r.size = some true →
      Quiet (contents torrent.infoHash) torrent.infoHash (torrent.fileIds.idxOf r.fileId) c
        w.answers r.offset r.size →
      s.engine.readFileRange w info (toI32 (torrent.fileIds.idxOf r.fileId)) r.offset r.size =
        some (engine, result) → result = .ok data := by
  have hnew : Sound catalog contents
      ⟨.empty, .empty, .new config cacheCapacityBytes readTimeoutSecs peerDiscoveryWaitSecs
        peerWaitCapSecs noSeederReadTimeoutSecs outside⟩ :=
    ⟨right_empty, nofun, .refl _⟩
  have hsound := Run.invariant_of_run_along
    (fun _ _ _ hu hundisturbed hstep => Sound.step hmatches hu hundisturbed hstep) hnew halong hrun
  have hdata := hsound.right r.torrentId torrent htorrent r.fileId hfile r.offset r.size data hhit
  refine ⟨fun c w => readData_of_hit htorrent hfile hhit, hdata,
    fun c w info engine result hinfo hcheck hquiet hread => ?_⟩
  rw [hdata]
  exact answer_eq_rangeBytes hmatches hsound.engine htorrent hinfo hfile hcheck
    (fun _ => hquiet) hread

/-! ### Examples -/

open EngineState

/-- A torrent with the files of `twoFiles`, under these ids. -/
def sampleTorrent (fileIds : List ℕ) : CatalogTorrent :=
  ⟨sampleHash, fileIds, some (cachedInfo [3, 5])⟩

/-- Two torrents with one info hash. -/
def sampleCatalog : Catalog where
  torrent := fun id =>
    if id = 1 then some (sampleTorrent [10, 11])
    else if id = 2 then some (sampleTorrent [12, 13]) else none
  unique := by
    intro i j fileId t u ht hu hfile hfile'
    grind [sampleTorrent]

lemma eq_sampleTorrent {torrentId : ℕ} {torrent : CatalogTorrent}
    (h : sampleCatalog.torrent torrentId = some torrent) :
    torrent = sampleTorrent [10, 11] ∨ torrent = sampleTorrent [12, 13] := by
  unfold sampleCatalog at h
  grind

lemma matches_sampleCatalog : Matches sampleCatalog fun _ => TorrentLayout.twoFiles where
  describes := by
    intro torrentId torrent info htorrent hinfo
    rcases eq_sampleTorrent htorrent with rfl | rfl
    all_goals
      cases hinfo
      exact ⟨rfl, rfl, rfl, by decide, rfl, by decide, by decide⟩
  length_eq := by
    intro torrentId torrent htorrent
    rcases eq_sampleTorrent htorrent with rfl | rfl <;> rfl
  length_lt := by
    intro torrentId torrent htorrent
    rcases eq_sampleTorrent htorrent with rfl | rfl <;> decide

def sampleRequest : ReadRequest := ⟨1, 11, 0, 5, by decide⟩

def fullCache : CacheManager := cacheWith [1, 2, 3, 4] [5, 6, 7, 8]

def evictedCache : CacheManager :=
  (fullCache.removePiece .none (pieceKey sampleHash 1)).toOption.getD fullCache

def seededAnswers (c : CacheManager) (now : ℕ) : Answers :=
  { answersOver c 3 with now := now, status := .ok ⟨.downloading, 1, 1⟩ }

def evictedSchedule : EngineState.Schedule where
  before := []
  finished := []
  answers := fun _ => seededAnswers evictedCache 0
  after := [⟨.timeout, [], fun _ => seededAnswers evictedCache (secs 61)⟩]

def quietSchedule : EngineState.Schedule where
  before := []
  finished := []
  answers := fun _ => answersOver fullCache 3
  after := []

lemma quiet_quietSchedule : Quiet TorrentLayout.twoFiles sampleHash 1 fullCache
    quietSchedule.answers 0 5 where
  size_pos := by decide
  offset_lt := by decide
  serves := fun _ => serves_answersOver fullCache [3, 5] 1 rfl (by decide) _
  holds := by
    intro _ p hfirst hlast
    have hhigh : (p : ℤ) ≤ 1 := hlast
    have hp : p = 0 ∨ p = 1 := by omega
    rcases hp with rfl | rfl
    · decide +kernel
    · decide +kernel

theorem hit_of_quietSchedule : ∃ s, step sampleCatalog ⟨.empty, .empty, sampleEngine⟩
        (.read sampleRequest fullCache quietSchedule) = some s ∧
      ∀ c w, s.readData sampleCatalog c w sampleRequest =
        some (s, .ok (.ready [4, 5, 6, 7, 8])) := by
  obtain ⟨s, hs, hhit⟩ : ∃ s, step sampleCatalog ⟨.empty, .empty, sampleEngine⟩
      (.read sampleRequest fullCache quietSchedule) = some s ∧
      s.torrentDataCache.get (cacheKey sampleHash sampleRequest.fileId
        sampleRequest.offset sampleRequest.size) = some [4, 5, 6, 7, 8] := by decide +kernel
  have halong : Run.Along (step sampleCatalog)
      (Undisturbed sampleCatalog fun _ => TorrentLayout.twoFiles) ⟨.empty, .empty, sampleEngine⟩
      [.read sampleRequest fullCache quietSchedule] := by
    refine ⟨fun torrent info htorrent _ _ _ _ => ?_, fun _ _ => trivial⟩
    cases htorrent
    exact quiet_quietSchedule
  refine ⟨s, hs, (hit_eq_rangeBytes sampleCatalog (fun _ => TorrentLayout.twoFiles)
    matches_sampleCatalog sampleConfig 8 60 30 none 10 (fun _ => sampleAnswers)
    [.read sampleRequest fullCache quietSchedule] s ?_ halong sampleRequest (sampleTorrent [10, 11])
    rfl (by decide) [4, 5, 6, 7, 8] hhit).1⟩
  exact Run.runFrom_cons_eq_some.mpr ⟨s, hs, rfl⟩

/-- The check finds both pieces, the second one is evicted before the engine reads it, and the one
byte that the engine answers with is stored. The next read of the five bytes gets that one byte
although both pieces are in the cache again. -/
theorem short_read_is_stored : Matches sampleCatalog (fun _ => TorrentLayout.twoFiles) ∧
    (∀ n, Serves evictedCache sampleHash [3, 5] 4 1 (fun _ => True) (evictedSchedule.answers n)) ∧
    ∃ s, step sampleCatalog ⟨.empty, .empty, sampleEngine⟩
        (.read sampleRequest fullCache evictedSchedule) = some s ∧
      s.readData sampleCatalog fullCache quietSchedule sampleRequest = some (s, .ok (.ready [4])) ∧
      rangeBytes TorrentLayout.twoFiles 1 0 5 = [4, 5, 6, 7, 8] := by
  have hserves : ∀ n, Serves evictedCache sampleHash [3, 5] 4 1 (fun _ => True)
      (evictedSchedule.answers n) := by
    intro n
    have hserves := serves_answersOver evictedCache [3, 5] 1 rfl (by decide) fun _ => True
    exact { hserves with settled := ⟨_, rfl, rfl⟩ }
  obtain ⟨s, hs, hhit⟩ : ∃ s, step sampleCatalog ⟨.empty, .empty, sampleEngine⟩
      (.read sampleRequest fullCache evictedSchedule) = some s ∧
      s.torrentDataCache.get (cacheKey sampleHash sampleRequest.fileId
        sampleRequest.offset sampleRequest.size) = some [4] := by decide +kernel
  have htorrent : sampleCatalog.torrent sampleRequest.torrentId =
    some (sampleTorrent [10, 11]) := rfl
  exact ⟨matches_sampleCatalog, hserves, s, hs, readData_of_hit htorrent (by decide) hhit,
    by decide⟩

end ReadSystem

end TorrentFs.Fuse
