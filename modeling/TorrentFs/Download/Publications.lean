import TorrentFs.Download.EngineReads

/-!
# The snapshots that the engine publishes

`publish_snapshot` shows for every torrent how many reads wait and for how long, and advances the
clock of a swarm that has a seeder and sends nothing while a read waits. It looks at the parked
reads of the engine state. The loop calls it between two iterations, when every read that is not
answered is parked. It is also called while a read is started or polled: a read that is started is
not parked yet, and `poll_pending_reads` has moved all parked reads out of the state.

A publication is therefore kept with two lists: the parked reads that `publish_snapshot` looks at
and the reads that are in flight at that moment.
-/

namespace TorrentFs.Download

open Text Word List Option FinMap Nat

/-! ### One publication -/

structure WaitingReads where
  oldestSecs : ℕ
  count : ℕ
deriving DecidableEq

def waitedSecs (now waitingSince : ℕ) : ℕ := (now - waitingSince) / secs 1

def countWait (now : ℕ) (waitingReads : FinMap Str WaitingReads) (wait : Str × ℕ) :
    FinMap Str WaitingReads :=
  let waited := waitedSecs now wait.2
  match waitingReads.get wait.1 with
  | some waits =>
    waitingReads.insert wait.1 ⟨max waits.oldestSecs waited, (waits.count + 1) % 2 ^ 32⟩
  | none => waitingReads.insert wait.1 ⟨waited, 1⟩

def aggregateWaitingReads (waits : List (Str × ℕ)) (now : ℕ) : FinMap Str WaitingReads :=
  waits.foldl (countWait now) .empty

def advanceConditionSince (previous : FinMap Str ℕ) (samples : FinMap Str Bool) (now : ℕ) :
    FinMap Str ℕ :=
  (samples.retain id).mapEntries fun infoHash _ => (previous.get infoHash).getD now

def elapsedSecsSince (since : FinMap Str ℕ) (now : ℕ) : FinMap Str ℕ :=
  since.mapValues (waitedSecs now)

structure SwarmStatus extends TorrentStatus where
  downloadRate : ℤ

/-- What the outside answers to one publication: the clock, and the status of every handle that
can be read. -/
structure PublishAnswers where
  now : ℕ
  status : Str → Option SwarmStatus

/-- `empty_swarm_since` and `slow_swarm_since` of the engine state. -/
structure Clocks where
  emptySwarmSince : FinMap Str ℕ
  slowSwarmSince : FinMap Str ℕ

structure DownloadSnapshot where
  statuses : FinMap Str SwarmStatus
  emptySwarmSecs : FinMap Str ℕ
  waitingReads : FinMap Str WaitingReads
  slowSwarmSecs : FinMap Str ℕ

def publish (handles : Finset Str) (pendingReads : List PendingRead) (clocks : Clocks)
    (a : PublishAnswers) : Clocks × DownloadSnapshot :=
  let statuses := FinMap.collect handles a.status
  let swarms := statuses.mapValues fun status => swarmIsEmpty status.numPeers status.numSeeds
  let emptySwarmSince := advanceConditionSince clocks.emptySwarmSince swarms a.now
  let waitingReads := aggregateWaitingReads
    (pendingReads.map fun read => (read.infoHash, read.waitingSince)) a.now
  let slowSwarms := statuses.mapEntries fun infoHash status =>
    decide (1 ≤ status.numSeeds) && status.downloadRate == 0 && waitingReads.contains infoHash
  let slowSwarmSince := advanceConditionSince clocks.slowSwarmSince slowSwarms a.now
  (⟨emptySwarmSince, slowSwarmSince⟩,
    ⟨statuses, elapsedSecsSince emptySwarmSince a.now, waitingReads,
      elapsedSecsSince slowSwarmSince a.now⟩)

/-! ### The clock over a history of samples -/

/-- One call of `advance_condition_since`: its samples, in which an info hash may stand more than
once, and its time. -/
structure ConditionSample where
  samples : List (Str × Bool)
  now : ℕ

namespace ConditionSample

def holds (infoHash : Str) (s : ConditionSample) : Bool := (infoHash, true) ∈ s.samples

def advance (previous : FinMap Str ℕ) (s : ConditionSample) : FinMap Str ℕ :=
  ((s.samples.filter Prod.snd).map fun p => (p.1, (previous.get p.1).getD s.now)).foldl
    (fun since p => since.insert p.1 p.2) .empty

def clockAfter (history : List ConditionSample) : FinMap Str ℕ := history.foldl advance .empty

lemma get_advance (previous : FinMap Str ℕ) (s : ConditionSample) (infoHash : Str) :
    (advance previous s).get infoHash =
      if s.holds infoHash then some ((previous.get infoHash).getD s.now) else none := by
  unfold advance
  rw [get_foldl_insert, get_empty, or_none]
  cases hlast : FinMap.lastOf _ infoHash with
  | none =>
    have hnot := mt FinMap.isSome_lastOf.mpr (Option.not_isSome_iff_eq_none.mpr hlast)
    rw [if_neg (by simpa [holds] using hnot)]
  | some since =>
    -- every entry for the info hash has the same value, so it does not matter which one is last
    obtain ⟨⟨k, held⟩, hp, heq⟩ := List.mem_map.mp (mem_of_lastOf hlast)
    cases heq
    obtain ⟨hmem, rfl : held = true⟩ := List.mem_filter.mp hp
    exact (if_pos (decide_eq_true hmem)).symm

/-- On a map of samples, as `publish_snapshot` has them, it is `advanceConditionSince`. -/
lemma advanceConditionSince_eq (previous : FinMap Str ℕ) {samples : FinMap Str Bool}
    {s : ConditionSample} (h : ∀ k, samples.get k = some true ↔ s.holds k) :
    advanceConditionSince previous samples s.now = advance previous s := by
  ext1 k
  rw [get_advance, advanceConditionSince, get_mapEntries, get_retain]
  by_cases hk : s.holds k = true
  · rw [if_pos hk, (h k).mpr hk]
    rfl
  · rw [if_neg hk, map_eq_none_iff, filter_eq_none_iff]
    rintro (_ | _) hget
    · simp
    · exact absurd ((h k).mp hget) hk

theorem clock_eq_first_of_run (history : List ConditionSample) (infoHash : Str) :
    ((clockAfter history).get infoHash).isSome = history.getLast?.any (holds infoHash) ∧
      (clockAfter history).get infoHash = (history.rtakeWhile (holds infoHash)).head?.map now := by
  have hclock : (clockAfter history).get infoHash =
      (history.rtakeWhile (holds infoHash)).head?.map now := by
    induction history using List.reverseRecOn with
    | nil => rfl
    | append_singleton history s ih =>
      rw [clockAfter, List.foldl_concat, get_advance, List.rtakeWhile_concat]
      split
      · -- the run goes on: its first sample is that of the run so far, or this one
        rw [← clockAfter, ih, List.head?_append]
        cases (history.rtakeWhile (holds infoHash)).head? <;> rfl
      · rfl
  refine ⟨?_, hclock⟩
  cases history using List.reverseRecOn with
  | nil => rfl
  | append_singleton history s =>
    rw [hclock, List.rtakeWhile_concat, List.getLast?_concat, Option.isSome_map]
    cases hs : holds infoHash s <;> simp [hs]

end ConditionSample

/-! ### The publications of an iteration -/

/-- A call of `publish_snapshot`: what it looks at, and the reads in flight when it is made. -/
structure Publication where
  handles : Finset Str
  pendingReads : List PendingRead
  inFlight : List PendingRead
  /-- The numbers of the reads that have their reply. -/
  answered : List ℕ
  /-- The number of reads handed to `start_read`. -/
  accepted : ℕ
  /-- Whether it is the call of the loop. -/
  inLoop : Bool

namespace EngineState

def publication (s : EngineState) (inFlight : List PendingRead) (inLoop : Bool) : Publication :=
  ⟨s.handles, s.pendingReads, inFlight, s.replies.map Prod.fst, s.accepted, inLoop⟩

/-- The calls of `publish_snapshot` in `begin_waiting`: the two that follow `reader_added`. -/
def beginWaitingPublishes (s : EngineState) (read : PendingRead) : ℕ :=
  let (a, s) := s.ask
  if s.allPiecesLocal read.infoHash a read.range then 0
  else
    match s.inheritVerdict read with
    | (_, _, some _) => 0
    | (s, read, none) => if read.infoHash ∈ s.handles then 2 else 0

def afterSettlingPublishes (s : EngineState) (read : PendingRead) : ℕ :=
  let (a, s) := s.ask
  let stalePieces := s.stalePiecesInRange read.infoHash a read.range
  if stalePieces = [] then s.beginWaitingPublishes read
  else
    let read := stalePieces.foldl PendingRead.recordStalePiece read
    match s.startRecheck read with
    | (_, some _) => 0
    | (s, none) => s.beginWaitingPublishes read

def pollWaitStatePublishes (s : EngineState) (read : PendingRead) : ℕ :=
  let (a, s) := s.ask
  if a.stopping then 0
  else if s.readTimeoutSecs < (a.now - read.phaseStart) / secs 1 then 0
  else
    match s.statusOf read.infoHash a with
    | none => 0
    | some status =>
      if isSettlingState status.state then 0
      else s.afterSettlingPublishes { read with status := status }

def finishRecheckPublishes (s : EngineState) (read : PendingRead) : ℕ :=
  let s := { s with scheduler := s.scheduler.markPrioritiesDirty read.infoHash }
  if read.readerId.isSome then 0 else s.beginWaitingPublishes read

def pollRecheckPublishes (s : EngineState) (read : PendingRead) : ℕ :=
  let (a, s) := s.ask
  if a.stopping then 0
  else if read.phaseDeadline ≤ a.now then s.finishRecheckPublishes read
  else
    match s.statusOf read.infoHash a with
    | none => s.finishRecheckPublishes read
    | some status =>
      let (b, s) := s.ask
      if isSettlingState status.state then 0
      else if read.sawChecking ∨ s.stalePiecesInRange read.infoHash b read.range = [] ∨
          secs 2 < b.now - read.phaseStart then
        s.finishRecheckPublishes read
      else 0

/-- Those in `poll_peer_wait`: one when the handle answers, before and after the deadline. -/
def pollPeerWaitPublishes (s : EngineState) (read : PendingRead) : ℕ :=
  let (a, s) := s.ask
  if a.stopping then 0
  else
    let (b, s) := s.ask
    if (s.statusOf read.infoHash b).isSome then 1 else 0

def pollReadPublishes (s : EngineState) (read : PendingRead) : ℕ :=
  if read.infoHash ∈ s.handles then
    match read.phase with
    | .waitState => s.pollWaitStatePublishes read
    | .recheck => s.pollRecheckPublishes read
    | .peerWait => s.pollPeerWaitPublishes read
    | .pieceWait => 0
  else 0

/-- The publications in the loop of `poll_pending_reads`. All parked reads that have no reply yet
are in flight: those that stay parked, the one that is polled and those that follow. -/
def pollEachPublications (s : EngineState) (remaining : List PendingRead) :
    List PendingRead → List Publication
  | [] => []
  | read :: rest =>
    List.replicate (s.pollReadPublishes read)
        (s.publication (remaining ++ read :: rest) false) ++
      match s.pollRead read with
      | none => []
      | some p =>
        match p.result with
        | some result =>
          match p.state.finishRead p.read result with
          | none => []
          | some s => pollEachPublications s remaining rest
        | none => pollEachPublications p.state (remaining ++ [p.read]) rest

/-- The publications of an iteration after its command: those of the polls, and the one of the
loop when it is due. -/
def pollPublications (s : EngineState) (finished : List (Str × ℤ)) (publishes : Bool) :
    List Publication :=
  let s := s.drainPieceFinished finished
  { s with pendingReads := [] }.pollEachPublications [] s.pendingReads ++
    match s.pollPendingReads with
    | none => []
    | some s => if publishes then [s.publication s.pendingReads true] else []

def admitReadPublications (s : EngineState) (prepared : PreparedRead) (reply : ℕ) :
    List Publication :=
  let (a, s) := s.ask
  let read := PendingRead.new prepared reply a.now
  if isSettlingState read.status.state then []
  else
    List.replicate (s.afterSettlingPublishes read)
      (s.publication (s.pendingReads ++ [read]) false)

def startReadPublications (s : EngineState) (info : TorrentInfo) (fileIndex : ℤ)
    (offset size : ℕ) : List Publication :=
  let reply := s.accepted
  let (a, s) := { s with accepted := s.accepted + 1 }.ask
  if a.stopping then []
  else
    match s.prepareRead info fileIndex offset size with
    | (_, .error _) | (_, .ok none) => []
    | (s, .ok (some prepared)) => s.admitReadPublications prepared reply

def commandPublications (s : EngineState) : Command → List Publication
  | .readFileRange info fileIndex offset size => s.startReadPublications info fileIndex offset size
  | _ => []

end EngineState

def shouldPublishAfterCommand (isRead isWatched isDue : Bool) : Bool :=
  !isRead || (isWatched && isDue)

/-- One iteration of the loop, whether a reader of the snapshot is watching, whether the last
publication of the loop is an interval old, and the answers to the publications. -/
structure Tick where
  iteration : Iteration
  isWatched : Bool
  isDue : Bool
  answers : ℕ → PublishAnswers

def EngineState.publications (s : EngineState) (tick : Tick) : List Publication :=
  if s.isRunning then
    let it := tick.iteration
    let s := { s with outside := it.answers }
    match it.received with
    | .disconnected => []
    | .timeout => s.pollPublications it.finished (tick.isWatched && tick.isDue)
    | .command c =>
      s.commandPublications c ++
        match s.handleCommand c with
        | none | some (_, true) => []
        | some (s, false) =>
          s.pollPublications it.finished
            (shouldPublishAfterCommand c.isRead tick.isWatched tick.isDue)
  else []

/-- A publication with the clocks before it and the answers it gets. -/
structure Published where
  publication : Publication
  before : Clocks
  answers : PublishAnswers

namespace Published

def after (p : Published) : Clocks :=
  (publish p.publication.handles p.publication.pendingReads p.before p.answers).1

def snapshot (p : Published) : DownloadSnapshot :=
  (publish p.publication.handles p.publication.pendingReads p.before p.answers).2

end Published

def publishAll (clocks : Clocks) (answers : ℕ → PublishAnswers) : List Publication → List Published
  | [] => []
  | publication :: rest =>
    let p : Published := ⟨publication, clocks, answers 0⟩
    p :: publishAll p.after (fun n => answers (n + 1)) rest

/-- The engine with the clocks of its conditions. -/
structure Publisher where
  engine : EngineState
  clocks : Clocks

namespace Publisher

def new (engine : EngineState) : Publisher := ⟨engine, ⟨.empty, .empty⟩⟩

def published (s : Publisher) (tick : Tick) : List Published :=
  publishAll s.clocks tick.answers (s.engine.publications tick)

def step (s : Publisher) (tick : Tick) : Option Publisher :=
  (s.engine.step tick.iteration).map fun engine =>
    ⟨engine, ((s.published tick).getLast?.map Published.after).getD s.clocks⟩

end Publisher

/-! ### What a snapshot should say -/

def readsOf (reads : List PendingRead) (infoHash : Str) : List PendingRead :=
  reads.filter fun read => read.infoHash = infoHash

/-- The waiting reads count the given reads of every torrent, and report how long the oldest of
them has waited. -/
structure Counts (reads : List PendingRead) (now : ℕ) (waitingReads : FinMap Str WaitingReads) :
    Prop where
  listed : ∀ infoHash, readsOf reads infoHash ≠ [] → (waitingReads.get infoHash).isSome
  count : ∀ infoHash waits, waitingReads.get infoHash = some waits →
    waits.count = (readsOf reads infoHash).length
  oldest : ∀ infoHash waits, waitingReads.get infoHash = some waits →
    IsGreatest {age | ∃ read ∈ readsOf reads infoHash, waitedSecs now read.waitingSince = age}
      waits.oldestSecs

/-- The clock of a torrent that has a read in flight, a seeder and a zero rate goes on. -/
def Published.KeepsClock (p : Published) : Prop :=
  ∀ infoHash status since, p.before.slowSwarmSince.get infoHash = some since →
    readsOf p.publication.inFlight infoHash ≠ [] → infoHash ∈ p.publication.handles →
    p.answers.status infoHash = some status → 1 ≤ status.numSeeds → status.downloadRate = 0 →
    p.after.slowSwarmSince.get infoHash = some since

/-- The snapshot counts the reads in flight, and the publication restarts no clock. -/
structure Published.Right (p : Published) : Prop where
  counts : Counts p.publication.inFlight p.answers.now p.snapshot.waitingReads
  keepsClock : p.KeepsClock

/-- The reads in flight are those that were accepted and have no reply. -/
def Publication.Unanswered (pub : Publication) : Prop :=
  (pub.answered ++ pub.inFlight.map PendingRead.reply).Perm (List.range pub.accepted)

/-! ### Counting -/

section Counting

variable {reads : List PendingRead} {now : ℕ} {infoHash : Str}

lemma readsOf_concat (reads : List PendingRead) (read : PendingRead) (infoHash : Str) :
    readsOf (reads ++ [read]) infoHash =
      readsOf reads infoHash ++ if read.infoHash = infoHash then [read] else [] := by
  unfold readsOf
  rw [filter_append]
  by_cases h : read.infoHash = infoHash <;> simp [h]

def waitingReadsOf (reads : List PendingRead) (now : ℕ) : FinMap Str WaitingReads :=
  aggregateWaitingReads (reads.map fun read => (read.infoHash, read.waitingSince)) now

lemma waitingReadsOf_concat (reads : List PendingRead) (read : PendingRead) (now : ℕ) :
    waitingReadsOf (reads ++ [read]) now =
      countWait now (waitingReadsOf reads now) (read.infoHash, read.waitingSince) := by
  unfold waitingReadsOf aggregateWaitingReads
  rw [map_append, foldl_append]
  rfl

/-- What the aggregation has found of one torrent after some reads of it. -/
structure Tally (now : ℕ) (reads : List PendingRead) (found : Option WaitingReads) : Prop where
  nobody : found = none → reads = []
  count : ∀ waits, found = some waits → waits.count = reads.length % 2 ^ 32
  oldest : ∀ waits, found = some waits →
    IsGreatest {age | ∃ read ∈ reads, waitedSecs now read.waitingSince = age} waits.oldestSecs

lemma tally_singleton (now : ℕ) (read : PendingRead) :
    Tally now [read] (some ⟨waitedSecs now read.waitingSince, 1⟩) := by
  refine ⟨fun h => absurd h (by simp), fun waits h => ?_, fun waits h => ?_⟩ <;>
    cases h
  · rfl
  · refine ⟨⟨read, mem_singleton_self read, rfl⟩, ?_⟩
    rintro age ⟨read', hread', rfl⟩
    rw [List.mem_singleton.mp hread']

lemma Tally.concat {waits : WaitingReads} (h : Tally now reads (some waits)) (read : PendingRead) :
    Tally now (reads ++ [read]) (some ⟨max waits.oldestSecs (waitedSecs now read.waitingSince),
        (waits.count + 1) % 2 ^ 32⟩) := by
  obtain ⟨hmem, hmax⟩ := h.oldest waits rfl
  refine ⟨fun h => absurd h (by simp), fun waits' h' => ?_, fun waits' h' => ?_⟩ <;>
    cases h'
  · change (waits.count + 1) % 2 ^ 32 = _
    rw [h.count waits rfl, length_append, mod_add_mod]
    rfl
  · constructor
    · -- the oldest read is one of those before or the new one
      rcases max_choice waits.oldestSecs (waitedSecs now read.waitingSince) with hold | hnew
      · obtain ⟨read', hread', hage⟩ := hmem
        exact ⟨read', mem_append_left _ hread', hage.trans hold.symm⟩
      · exact ⟨read, mem_append_right _ (mem_singleton_self read), hnew.symm⟩
    · rintro age ⟨read', hread', rfl⟩
      rcases List.mem_append.mp hread' with hold | hnew
      · exact le_max_of_le_left (hmax ⟨read', hold, rfl⟩)
      · rw [List.mem_singleton.mp hnew]
        exact le_max_right _ _

lemma Tally.countWait {m : FinMap Str WaitingReads} {read : PendingRead}
    (h : Tally now reads (m.get read.infoHash)) : Tally now (reads ++ [read])
      ((countWait now m (read.infoHash, read.waitingSince)).get read.infoHash) := by
  unfold Download.countWait
  cases hget : m.get read.infoHash with
  | none =>
    rw [h.nobody hget, get_insert_self]
    exact tally_singleton now read
  | some waits =>
    rw [hget] at h
    rw [get_insert_self]
    exact h.concat read

lemma countWait_of_ne {m : FinMap Str WaitingReads} {wait : Str × ℕ} (h : infoHash ≠ wait.1) :
    (countWait now m wait).get infoHash = m.get infoHash := by
  unfold countWait
  split <;> exact get_insert_ne m h _

lemma tally_waitingReadsOf (reads : List PendingRead) (now : ℕ) (infoHash : Str) :
    Tally now (readsOf reads infoHash) ((waitingReadsOf reads now).get infoHash) := by
  induction reads using List.reverseRecOn with
  | nil => exact ⟨fun _ => rfl, fun _ h => (nomatch h), fun _ h => (nomatch h)⟩
  | append_singleton reads read ih =>
    rw [readsOf_concat, waitingReadsOf_concat]
    by_cases h : read.infoHash = infoHash
    · subst h
      rw [if_pos rfl]
      exact ih.countWait
    · rw [if_neg h, append_nil, countWait_of_ne (Ne.symm h)]
      exact ih

lemma contains_waitingReadsOf (h : readsOf reads infoHash ≠ []) :
    (waitingReadsOf reads now).contains infoHash = true := by
  unfold FinMap.contains
  rw [isSome_iff_ne_none]
  intro hnone
  exact h ((tally_waitingReadsOf reads now infoHash).nobody hnone)

lemma counts_waitingReadsOf (h : reads.length < 2 ^ 32) :
    Counts reads now (waitingReadsOf reads now) := by
  refine ⟨fun infoHash hreads => contains_waitingReadsOf hreads, fun infoHash waits hget => ?_,
    fun infoHash waits hget => (tally_waitingReadsOf reads now infoHash).oldest waits hget⟩
  rw [(tally_waitingReadsOf reads now infoHash).count waits hget]
  exact mod_eq_of_lt ((length_filter_le _ _).trans_lt h)

end Counting

/-! ### Which publications are right -/

/-- At a publication the reads in flight are those without a reply. The loop publishes when all of
them are parked; at any other publication one of them is not. -/
structure Publication.Sound (pub : Publication) : Prop where
  unanswered : pub.Unanswered
  parked : pub.inLoop = true → pub.pendingReads = pub.inFlight
  unparked : pub.inLoop = false → ∃ read, List.Subperm (read :: pub.pendingReads) pub.inFlight

section Right

variable {p : Published}

lemma not_counts_of_unparked {reads inFlight : List PendingRead} {read : PendingRead} {now : ℕ}
    (h : List.Subperm (read :: reads) inFlight) (hlength : inFlight.length < 2 ^ 32) :
    ¬ Counts inFlight now (waitingReadsOf reads now) := by
  intro hcounts
  have hmore : (readsOf reads read.infoHash).length < (readsOf inFlight read.infoHash).length := by
    have hle := (h.filter fun r => r.infoHash = read.infoHash).length_le
    rw [filter_cons_of_pos (by simp)] at hle
    exact hle
  have hsmall : (readsOf inFlight read.infoHash).length < 2 ^ 32 :=
    (length_filter_le _ _).trans_lt hlength
  have hlisted := hcounts.listed read.infoHash (ne_nil_of_length_pos (by omega))
  obtain ⟨waits, hget⟩ := Option.isSome_iff_exists.mp hlisted
  have hcount := (tally_waitingReadsOf reads now read.infoHash).count waits hget
  rw [hcounts.count read.infoHash waits hget, mod_eq_of_lt (hmore.trans hsmall)] at hcount
  omega

lemma keepsClock_of_parked (h : p.publication.pendingReads = p.publication.inFlight) :
    p.KeepsClock := by
  intro infoHash status since hsince hreads hhandle hstatus hseeds hrate
  rw [← h] at hreads
  have hcontains : (waitingReadsOf p.publication.pendingReads p.answers.now).contains infoHash =
      true := contains_waitingReadsOf hreads
  unfold Published.after publish advanceConditionSince
  simp only [get_mapEntries, get_retain, get_collect_of_mem _ hhandle, hstatus,
    map_some, hseeds, hrate, decide_true, beq_self_eq_true, Bool.true_and]
  rw [waitingReadsOf] at hcontains
  rw [hcontains, filter_some_pos rfl, map_some, hsince]
  rfl

lemma right_iff_of_sound (h : p.publication.Sound)
    (hlength : p.publication.inFlight.length < 2 ^ 32) : p.Right ↔ p.publication.inLoop = true := by
  constructor
  · intro hright
    by_contra hinner
    obtain ⟨read, hread⟩ := h.unparked (Bool.eq_false_of_not_eq_true hinner)
    exact not_counts_of_unparked hread hlength hright.counts
  · intro hloop
    have hparked := h.parked hloop
    refine ⟨?_, keepsClock_of_parked hparked⟩
    rw [← hparked] at hlength ⊢
    exact counts_waitingReadsOf hlength

end Right

/-! ### Every publication of an iteration -/

namespace EngineState

open Publication

section Sound

variable {s : EngineState} {pub : Publication}

lemma Counted.unanswered {reads : List PendingRead} (h : Counted ⟨s, reads, []⟩) (inLoop : Bool) :
    (s.publication reads inLoop).Unanswered := by
  unfold Counted at h
  rw [append_nil] at h
  exact h

lemma pollEachPublications_sound (it : Iteration) (rest : List PendingRead) :
    ∀ {s : EngineState} {remaining : List PendingRead}, s.pendingReads = [] →
      Counted ⟨s, remaining ++ rest, []⟩ →
      ∀ pub ∈ s.pollEachPublications remaining rest, pub.Sound := by
  induction rest with
  | nil => exact fun _ _ pub hpub => absurd hpub not_mem_nil
  | cons read rest ih =>
    intro s remaining hpending hcounted pub hpub
    rw [pollEachPublications, mem_append] at hpub
    rcases hpub with hpub | hpub
    · rw [(List.mem_replicate.mp hpub).2]
      refine ⟨hcounted.unanswered false, fun h => absurd h Bool.false_ne_true,
        fun _ => ⟨read, ?_⟩⟩
      change List.Subperm (read :: s.pendingReads) (remaining ++ read :: rest)
      rw [hpending]
      exact List.singleton_subperm_iff.mpr (by simp)
    · cases hp : s.pollRead read with
      | none => simp [hp] at hpub
      | some p =>
        have hnil := (pollRead_stepped hp).passed.pendingReads.trans hpending
        simp only [hp] at hpub
        cases hresult : p.result with
        | some result =>
          simp only [hresult] at hpub
          cases hfinish : p.state.finishRead p.read result with
          | none => simp [hfinish] at hpub
          | some t =>
            simp only [hfinish] at hpub
            have hact : Act it _ _ := .finish remaining rest hp hresult hfinish
            refine ih ?_ (hact.counted hcounted) pub hpub
            obtain ⟨outside, scheduler, rfl⟩ := finishRead_cases hfinish
            exact hnil
        | none =>
          simp only [hresult] at hpub
          have hact : Act it _ _ := .poll remaining rest hp hresult
          refine ih hnil ?_ pub hpub
          rw [append_assoc]
          exact hact.counted hcounted

lemma pollPublications_sound (h : Counted s.ledger) (it : Iteration) (publishes : Bool) :
    ∀ pub ∈ s.pollPublications it.finished publishes, pub.Sound := by
  intro pub hpub
  obtain ⟨hdrain, hquiet⟩ := acts_drainPieceFinished it s.pendingReads it.finished s
  have hdrained := invariant_of_acts Act.counted hdrain h
  rw [← hquiet.pendingReads] at hdrained
  rcases List.mem_append.mp hpub with hpub | hpub
  · exact pollEachPublications_sound it _ rfl hdrained pub hpub
  · cases hpoll : (s.drainPieceFinished it.finished).pollPendingReads with
    | none => simp [hpoll] at hpub
    | some t =>
      simp only [hpoll] at hpub
      split at hpub
      · rw [List.mem_singleton.mp hpub]
        have hpolled := invariant_of_acts Act.counted (acts_poll it hpoll).1 h
        exact ⟨hpolled.unanswered true, fun _ => rfl, fun h => absurd h Bool.true_eq_false_eq_False⟩
      · exact absurd hpub not_mem_nil

lemma startReadPublications_sound {it : Iteration} {info : TorrentInfo} {fileIndex : ℤ}
    {offset size : ℕ} (h : Counted s.ledger)
    (hreceived : it.received = .command (.readFileRange info fileIndex offset size))
    (houtside : s.outside = it.answers) :
    ∀ pub ∈ s.startReadPublications info fileIndex offset size, pub.Sound := by
  intro pub hpub
  unfold startReadPublications at hpub
  dsimp only at hpub
  split at hpub
  · exact absurd hpub not_mem_nil
  · rcases hprepare : (ask { s with accepted := s.accepted + 1 }).2.prepareRead info fileIndex
      offset size with ⟨u, prepared⟩
    have hcounted := invariant_of_acts Act.counted
      (acts_prepareRead hreceived houtside hprepare).1 h
    rw [hprepare] at hpub
    rcases prepared with e | _ | prepared
    · exact absurd hpub not_mem_nil
    · exact absurd hpub not_mem_nil
    · dsimp only [admitReadPublications] at hpub
      split at hpub
      · exact absurd hpub not_mem_nil
      · rw [(List.mem_replicate.mp hpub).2]
        refine ⟨?_, fun h => absurd h Bool.false_ne_true,
          fun _ => ⟨_, (perm_append_singleton _ _).symm.subperm⟩⟩
        change (_ ++ (_ ++ [_]).map PendingRead.reply).Perm _
        rw [map_append, ← append_assoc]
        exact hcounted

lemma publications_sound (h : Counted s.ledger) (tick : Tick) :
    ∀ pub ∈ s.publications tick, pub.Sound := by
  intro pub hpub
  unfold publications at hpub
  split at hpub
  · have hasked : Counted (ledger { s with outside := tick.iteration.answers }) := h
    dsimp only at hpub
    split at hpub
    · exact absurd hpub not_mem_nil
    · exact pollPublications_sound hasked _ _ pub hpub
    · next c hreceived =>
      rcases List.mem_append.mp hpub with hpub | hpub
      · cases c with
        | readFileRange info fileIndex offset size =>
          exact startReadPublications_sound hasked hreceived rfl pub hpub
        | _ => exact absurd hpub not_mem_nil
      · split at hpub
        · exact absurd hpub not_mem_nil
        · exact absurd hpub not_mem_nil
        · next heq =>
          have hacts := (acts_handleCommand hreceived rfl heq).1
          exact pollPublications_sound (invariant_of_acts Act.counted hacts hasked) _ _ pub hpub
  · exact absurd hpub not_mem_nil

end Sound

end EngineState

/-! ### Every run -/

lemma publication_of_mem_publishAll {p : Published} (publications : List Publication) :
    ∀ {clocks : Clocks} {answers : ℕ → PublishAnswers},
      p ∈ publishAll clocks answers publications → p.publication ∈ publications := by
  induction publications with
  | nil => exact fun hp => absurd hp not_mem_nil
  | cons publication rest ih =>
    intro clocks answers hp
    rcases List.mem_cons.mp hp with rfl | hp
    · exact mem_cons_self
    · exact mem_cons_of_mem _ (ih hp)

/-- In every run the reads in flight at a publication are those accepted and not answered, and the
publication counts them and keeps the clocks exactly when it is the one of the loop. -/
theorem published_right_iff_inLoop (config : PiecePriorityConfig)
    (cacheCapacityBytes readTimeoutSecs peerDiscoveryWaitSecs : ℕ) (peerWaitCapSecs : Option ℕ)
    (noSeederReadTimeoutSecs : ℕ) (outside : ℕ → Answers) (ticks : List Tick) (s : Publisher)
    (hrun : Run.runFrom Publisher.step
      (.new (.new config cacheCapacityBytes readTimeoutSecs peerDiscoveryWaitSecs peerWaitCapSecs
        noSeederReadTimeoutSecs outside)) ticks = some s)
    (tick : Tick) (p : Published) (hp : p ∈ s.published tick)
    (hlength : p.publication.inFlight.length < 2 ^ 32) :
    p.publication.Unanswered ∧ (p.Right ↔ p.publication.inLoop = true) := by
  have hstep : ∀ (u : Publisher) (tick : Tick) (v : Publisher),
      EngineState.Counted u.engine.ledger → u.step tick = some v →
      EngineState.Counted v.engine.ledger := by
    intro u tick v hu hstep
    obtain ⟨engine, hengine, rfl⟩ := Option.map_eq_some_iff.mp hstep
    exact EngineState.invariant_of_step EngineState.Act.counted hu hengine
  have hcounted : EngineState.Counted s.engine.ledger := by
    refine Run.invariant_of_run hstep ?_ hrun
    exact List.Perm.refl []
  have hsound := EngineState.publications_sound hcounted tick _ (publication_of_mem_publishAll _ hp)
  exact ⟨hsound.unanswered, right_iff_of_sound hsound hlength⟩

open EngineState

def probedInfo : TorrentInfo := { sampleInfo with infoHash := .ok ['b'] }

def slowStatus (infoHash : Str) : Option SwarmStatus :=
  if infoHash = ['a'] then some ⟨⟨.downloading, 1, 1⟩, 0⟩ else some ⟨⟨.downloading, 0, 0⟩, 0⟩

def slowTick : Tick :=
  ⟨readFirstPiece sampleInfo fun _ => { sampleAnswers with status := .ok ⟨.downloading, 1, 1⟩ },
    true, true, fun _ => ⟨0, slowStatus⟩⟩

def probeTick : Tick :=
  ⟨readFirstPiece probedInfo fun _ => { sampleAnswers with now := secs 1 }, true, true,
    fun _ => ⟨secs 1, slowStatus⟩⟩

theorem published_right_of_probeTick :
    ∃ s p, Run.runFrom Publisher.step (.new sampleEngine) [slowTick] = some s ∧
      p ∈ s.published probeTick ∧ p.publication.inFlight.length < 2 ^ 32 ∧
      p.publication.inLoop = true ∧ p.publication.Unanswered ∧
      (p.Right ↔ p.publication.inLoop = true) := by
  obtain ⟨s, hs, p, hp, hlength, hloop⟩ :
      ∃ s, Run.runFrom Publisher.step (.new sampleEngine) [slowTick] = some s ∧
        ∃ p ∈ s.published probeTick, p.publication.inFlight.length < 2 ^ 32 ∧
          p.publication.inLoop = true := by
    decide +kernel
  exact ⟨s, p, hs, hp, hlength, hloop,
    published_right_iff_inLoop sampleConfig 8 60 30 none 10 (fun _ => sampleAnswers) [slowTick] s hs
      probeTick p hp hlength⟩

/-- The poll of the read of `b` publishes while no read is parked: the snapshot has no waiting read
although two are in flight, and the clock of `a` stops. The next publication starts it anew. -/
theorem probe_hides_waiting_reads :
    ∃ s, Run.runFrom Publisher.step (.new sampleEngine) [slowTick] = some s ∧
      (s.published probeTick).map (fun p => p.publication.inFlight.map fun read => read.infoHash) =
        [[['a'], ['b']], [['a'], ['b']], [['a'], ['b']], [['a'], ['b']]] ∧
      (s.published probeTick).map (fun p => p.snapshot.waitingReads.get ['a']) =
        [some ⟨1, 1⟩, some ⟨1, 1⟩, none, some ⟨1, 1⟩] ∧
      (s.published probeTick).map (fun p => p.snapshot.waitingReads.get ['b']) =
        [none, none, none, some ⟨0, 1⟩] ∧
      (s.published probeTick).map (fun p => p.after.slowSwarmSince.get ['a']) =
        [some 0, some 0, none, some (secs 1)] ∧ ∃ p ∈ s.published probeTick,
        ¬ Counts p.publication.inFlight p.answers.now p.snapshot.waitingReads ∧ ¬ p.KeepsClock := by
  obtain ⟨s, hs, hflight, ha, hb, hclock, p, hp, hreads, hwaiting, hbefore, hhandle, hafter,
      hstatus⟩ : ∃ s, Run.runFrom Publisher.step (.new sampleEngine) [slowTick] = some s ∧
      (s.published probeTick).map (fun p => p.publication.inFlight.map fun read => read.infoHash) =
        [[['a'], ['b']], [['a'], ['b']], [['a'], ['b']], [['a'], ['b']]] ∧
      (s.published probeTick).map (fun p => p.snapshot.waitingReads.get ['a']) =
        [some ⟨1, 1⟩, some ⟨1, 1⟩, none, some ⟨1, 1⟩] ∧
      (s.published probeTick).map (fun p => p.snapshot.waitingReads.get ['b']) =
        [none, none, none, some ⟨0, 1⟩] ∧
      (s.published probeTick).map (fun p => p.after.slowSwarmSince.get ['a']) =
        [some 0, some 0, none, some (secs 1)] ∧
      ∃ p ∈ s.published probeTick, readsOf p.publication.inFlight ['a'] ≠ [] ∧
        p.snapshot.waitingReads.get ['a'] = none ∧ p.before.slowSwarmSince.get ['a'] = some 0 ∧
        ['a'] ∈ p.publication.handles ∧ p.after.slowSwarmSince.get ['a'] = none ∧
        (p.answers.status ['a']).map (fun status => (status.numSeeds, status.downloadRate)) =
          some (1, 0) := by
    decide +kernel
  obtain ⟨status, hstatus, heq⟩ := Option.map_eq_some_iff.mp hstatus
  obtain ⟨hseeds, hrate⟩ := Prod.mk.inj heq
  refine ⟨s, hs, hflight, ha, hb, hclock, p, hp, fun hcounts => ?_, fun hkeeps => ?_⟩
  · have hlisted := hcounts.listed ['a'] hreads
    rw [hwaiting] at hlisted
    exact absurd hlisted Bool.false_ne_true
  · have hkept := hkeeps ['a'] status 0 hbefore hreads hhandle hstatus hseeds.ge hrate
    rw [hafter] at hkept
    exact absurd hkept (by simp)

end TorrentFs.Download
