import TorrentFs.Download.Engine

/-!
# What one step of a read can do

A step of a read is a chain of parts that leave the read in its phase, and at most one entry: the
read enters a phase, or a seeder restarts its piece wait. Every function a read passes through is
traced once to this form, whatever the outside answers, and what a step keeps is then read off the
parts and the entries.
-/

namespace TorrentFs.Download

open Text Word

structure Timeouts where
  readTimeout : ℕ
  peerDiscoveryWait : ℕ
  peerWaitCap : Option ℕ
  noSeederReadTimeout : ℕ
deriving DecidableEq

def ReadPhase.next : ReadPhase → List ReadPhase
  | .waitState => [.recheck, .peerWait, .pieceWait]
  | .recheck => [.peerWait, .pieceWait]
  | .peerWait => [.pieceWait]
  | .pieceWait => [.recheck]

namespace PendingRead

def core (read : PendingRead) : PendingRead :=
  { read with
    status := ⟨.unknown, 0, 0⟩
    currentPiece := 0
    isPeerWaitExhausted := false
    peerWaitElapsed := 0
    staleBlockers := []
    sawChecking := false }

def withReader (read : PendingRead) : Except FfiError (ℕ × Bool) → PendingRead
  | .ok (id, isRegistered) => { read with readerId := some id, isRegistered := isRegistered }
  | .error _ => { read with readerId := none, isRegistered := false }

lemma core_recordStalePiece (read : PendingRead) (piece : ℤ) :
    (read.recordStalePiece piece).core = read.core := by
  unfold recordStalePiece
  split <;> rfl

lemma core_foldl_recordStalePiece (pieces : List ℤ) (read : PendingRead) :
    (pieces.foldl recordStalePiece read).core = read.core := by
  induction pieces generalizing read with
  | nil => rfl
  | cons piece pieces ih => exact (ih _).trans (core_recordStalePiece read piece)

end PendingRead

namespace EngineState

open PieceScheduler (SameReaders)

def timeouts (s : EngineState) : Timeouts :=
  ⟨s.readTimeoutSecs, s.peerDiscoveryWaitSecs, s.peerWaitCapSecs, s.noSeederReadTimeoutSecs⟩

/-! ### Parts and entries -/

/-- A part of a step that leaves the read in its phase. -/
inductive Part : EngineState × PendingRead → EngineState × PendingRead → Prop
  /-- The outside is asked. -/
  | ask (s : EngineState) (read : PendingRead) : Part (s, read) (s.ask.2, read)
  /-- The read moves on, or takes a note. -/
  | note (s : EngineState) {read read' : PendingRead} (core : read'.core = read.core) :
      Part (s, read) (s, read')
  | pieceReady (s : EngineState) (read : PendingRead) (piece : ℤ) :
      Part (s, read) (s.pieceReady read.infoHash piece, read)
  | markDirty (s : EngineState) (read : PendingRead) :
      Part (s, read) ({ s with scheduler := s.scheduler.markPrioritiesDirty read.infoHash }, read)
  | recompute (s : EngineState) (read : PendingRead) {isComplete : ℤ → Bool}
      {scheduler : PieceScheduler}
      (recomputed : s.scheduler.recompute read.infoHash isComplete = some scheduler) :
      Part (s, read) ({ s with scheduler := scheduler }, read)
  /-- The announce in the middle of the flight's window, when it is due. -/
  | reannounce (s : EngineState) (read : PendingRead) {flight : ColdFlight} (now : ℕ)
      (found : s.coldFlights.get read.infoHash = some flight) :
      Part (s, read) ({ s with
        coldFlights := s.coldFlights.insert read.infoHash (flight.takeReannounce now).2
        log := s.log ++ if (flight.takeReannounce now).1 then
          [(read.infoHash, .flightReannounced)] else [] }, read)
  | dropVerdict (s : EngineState) (read : PendingRead) :
      Part (s, read) ({ s with sourceless := s.sourceless.erase read.infoHash }, read)
  | applyVerdict (s : EngineState) (read : PendingRead) {verdict : SourcelessSwarm} (now : ℕ)
      (found : s.sourceless.get read.infoHash = some verdict) :
      Part (s, read) ({ s with
        sourceless := s.sourceless.insert read.infoHash (verdict.takeReannounce now).2 }, read)

abbrev Parts := Relation.ReflTransGen Part

/-- `reader_added` for a read that has no reader; before its first wait no read has one. -/
structure Adds (s : EngineState) (read : PendingRead) (scheduler : PieceScheduler)
    (added : Except FfiError (ℕ × Bool)) : Prop where
  handle : read.infoHash ∈ s.handles
  readerAdded : ∃ filePieceInfo isComplete, s.scheduler.readerAdded read.info read.fileIndex
    read.offset read.range.size filePieceInfo isComplete = some (scheduler, added)
  free : read.phase ≠ .waitState → read.readerId = none

/-- How a read enters a phase. -/
inductive Entry : ReadPhase → EngineState × PendingRead → EngineState × PendingRead → Prop
  | recheck (s : EngineState) (read : PendingRead) (now deadline : ℕ) :
      Entry .recheck (s, read) (s, { read with
        phase := .recheck
        phaseStart := now
        phaseDeadline := deadline
        sawChecking := false })
  /-- A registered read waits for a peer. -/
  | discover {s : EngineState} {read : PendingRead} {scheduler : PieceScheduler}
      {added : Except FfiError (ℕ × Bool)} (adds : Adds s read scheduler added) :
      Entry .peerWait (s, read)
        ({ s with scheduler := scheduler }.enterPeerWait (read.withReader added))
  /-- A registered read waits for its pieces. -/
  | download {s : EngineState} {read : PendingRead} {scheduler : PieceScheduler}
      {added : Except FfiError (ℕ × Bool)} (adds : Adds s read scheduler added) :
      Entry .pieceWait (s, read)
        ({ s with scheduler := scheduler }.enterPieceWait (read.withReader added))
  /-- A read with a reader goes back to its pieces. -/
  | resume (s : EngineState) (read : PendingRead) :
    Entry .pieceWait (s, read) (s.enterPieceWait read)
  /-- The discovery window has elapsed. -/
  | windowEnded (s : EngineState) (read : PendingRead) (status : TorrentStatus) (now elapsed : ℕ)
      (waits : read.phase = .peerWait) :
      Entry .pieceWait (s, read) (EngineState.enterPieceWait { s with
        coldFlights := s.coldFlights.erase read.infoHash
        sourceless := if swarmIsEmpty status.numPeers status.numSeeds then
          s.sourceless.insert read.infoHash (.new now (secs s.peerDiscoveryWindow) elapsed)
          else s.sourceless.erase read.infoHash
        log := s.log ++
          if swarmIsEmpty status.numPeers status.numSeeds then
            [(read.infoHash, .gaveUp status.numPeers status.numSeeds now)] else [] }
        { read with
          isPeerWaitExhausted := swarmIsEmpty status.numPeers status.numSeeds
          status := status
          peerWaitElapsed := elapsed })
  /-- A peer or a seed has connected. -/
  | peerFound (s : EngineState) (read : PendingRead) (elapsed : ℕ) (waits : read.phase = .peerWait)
      (present : 0 < read.status.numPeers ∨ 0 < read.status.numSeeds) :
      Entry .pieceWait (s, read) (EngineState.enterPieceWait { s with
        coldFlights := s.coldFlights.erase read.infoHash
        sourceless := s.sourceless.erase read.infoHash } { read with peerWaitElapsed := elapsed })

/-- A step of a read, which can enter one of `phases`. -/
inductive Stepped (phases : List ReadPhase) (s : EngineState) (read : PendingRead) : Polled → Prop
  | stay {t : EngineState} {read' : PendingRead} {result : Option ReadResult}
      (parts : Parts (s, read) (t, read')) : Stepped phases s read ⟨t, read', result⟩
  | enter {b : EngineState × PendingRead} {t : EngineState} {read' : PendingRead}
      {phase : ReadPhase} (before : Parts (s, read) b) (mem : phase ∈ phases)
      (entry : Entry phase b (t, read')) : Stepped phases s read ⟨t, read', none⟩
  /-- A late seeder restarts the piece wait. -/
  | seeder {u t : EngineState} {read₁ read' : PendingRead} {result : Option ReadResult}
      (status : TorrentStatus) (now : ℕ) (before : Parts (s, read) (u, read₁))
      (phase : read₁.phase = .pieceWait) (hasSeeder : read₁.hasSeeder = false)
      (after : Parts (u, { read₁ with
        hasSeeder := true
        pieceWaitStart := now
        status := status }) (t, read')) : Stepped phases s read ⟨t, read', result⟩

variable {s t u : EngineState} {read read' read'' : PendingRead} {p : Polled}
  {phases : List ReadPhase} {piece : ℤ}

lemma Stepped.of_parts (h : Stepped phases t read' p) (hparts : Parts (s, read) (t, read')) :
    Stepped phases s read p := by
  cases h with
  | stay parts => exact .stay (hparts.trans parts)
  | enter before mem entry => exact .enter (hparts.trans before) mem entry
  | seeder status now before phase hasSeeder after =>
    exact .seeder status now (hparts.trans before) phase hasSeeder after

lemma Stepped.mono {phases' : List ReadPhase} (h : Stepped phases s read p)
    (hsubset : phases ⊆ phases') : Stepped phases' s read p := by
  cases h with
  | stay parts => exact .stay parts
  | enter before mem entry => exact .enter before (hsubset mem) entry
  | seeder status now before phase hasSeeder after =>
    exact .seeder status now before phase hasSeeder after

lemma Part.core {a b : EngineState × PendingRead} (h : Part a b) : b.2.core = a.2.core := by
  cases h with
  | note _ core => exact core
  | _ => rfl

lemma core_of_parts {a b : EngineState × PendingRead} (h : Parts a b) : b.2.core = a.2.core := by
  induction h with
  | refl => rfl
  | tail _ part ih => exact part.core.trans ih

/-! ### The trace of a step -/

lemma parts_ask (s : EngineState) (read : PendingRead) : Parts (s, read) (s.ask.2, read) :=
  .single (.ask s read)

lemma parts_note (s : EngineState) (hcore : read'.core = read.core) : Parts (s, read) (s, read') :=
  .single (.note s hcore)

lemma parts_foldl_pieceReady (read : PendingRead) (pieces : List ℤ) (s : EngineState) :
    Parts (s, read) (pieces.foldl (fun s piece => s.pieceReady read.infoHash piece) s, read) := by
  induction pieces generalizing s with
  | nil => exact .refl
  | cons piece pieces ih => exact .head (.pieceReady s read piece) (ih _)

lemma parts_readFromDisk (s : EngineState) (read : PendingRead) (range : ReadRange) :
    Parts (s, read) ((s.readFromDisk read.infoHash range).1, read) := by
  unfold readFromDisk
  dsimp only
  split
  · exact parts_ask s read
  · exact (parts_ask s read).trans (parts_foldl_pieceReady read _ _)

lemma parts_readTimedOut (s : EngineState) (read : PendingRead) (piece : ℤ) (windowSecs : ℕ)
    (snapshot : Option TorrentStatus) :
    Parts (s, read) ((s.readTimedOut read piece windowSecs snapshot).1, read) := by
  unfold readTimedOut
  split
  · exact parts_readFromDisk s read _
  · dsimp only
    repeat' split
    all_goals exact parts_ask s read

lemma startRecheck_cases (s : EngineState) (read : PendingRead) :
    ∃ t, Parts (s, read) (t, read) ∧ (s.startRecheck read = (t, none) ∨
      ∃ read', s.startRecheck read = (t, some read') ∧ Entry .recheck (t, read) (t, read')) := by
  refine ⟨s.ask.2, parts_ask s read, ?_⟩
  unfold startRecheck
  dsimp only
  split
  · exact .inr ⟨_, rfl, .recheck _ read _ _⟩
  · exact .inl rfl

lemma inheritVerdict_parts {result : Option ReadResult}
    (h : s.inheritVerdict read = (t, read', result)) : Parts (s, read) (t, read') := by
  unfold inheritVerdict at h
  split at h
  · obtain ⟨rfl, rfl, rfl⟩ : s = t ∧ read = read' ∧ none = result := by simpa using h
    exact .refl
  · next verdict hverdict =>
    dsimp only at h
    split at h
    · obtain ⟨rfl, rfl, rfl⟩ : _ = t ∧ read = read' ∧ none = result := by simpa using h
      exact (parts_ask s read).tail (.dropVerdict _ read)
    · next status _ =>
      have hstatus : Parts (s, read) (s.ask.2, { read with status := status }) :=
        (parts_ask s read).trans (parts_note _ rfl)
      split at h
      · -- the verdict ends the read with what `readTimedOut` makes of it
        obtain ⟨rfl, rfl, rfl⟩ : _ = t ∧ _ = read' ∧ some _ = result := by simpa using h
        refine (hstatus.tail (.applyVerdict _ _ s.ask.1.now hverdict)).trans ?_
        refine (parts_ask _ _).trans (Relation.ReflTransGen.trans (parts_note _ ?_)
          (parts_readTimedOut _ _ _ _ _))
        rfl
      · obtain ⟨rfl, rfl, rfl⟩ : _ = t ∧ _ = read' ∧ none = result := by simpa using h
        exact hstatus.tail (.dropVerdict _ _)

section

variable (hfree : read.phase ≠ .waitState → read.readerId = none)
include hfree

lemma addReader_stepped (h : s.addReader read = some p) :
    Stepped [.peerWait, .pieceWait] s read p := by
  unfold addReader at h
  split at h
  · next hhandle =>
    dsimp only at h
    split at h
    · cases h
    · next scheduler added hadded =>
      have hadds : Adds s.ask.2 read scheduler added := ⟨hhandle, ⟨_, _, hadded⟩, hfree⟩
      cases h
      rcases added with e | ⟨id, isRegistered⟩
      all_goals
        dsimp only
        split
        · exact .enter (parts_ask s read) (by simp) (.discover hadds)
        · exact .enter (parts_ask s read) (by simp) (.download hadds)
  · cases h
    exact .stay .refl

lemma beginWaiting_stepped (h : s.beginWaiting read = some p) :
    Stepped [.peerWait, .pieceWait] s read p := by
  unfold beginWaiting at h
  have hasked := parts_ask s read
  dsimp only at h
  split at h
  · cases h
    exact .stay (hasked.trans (parts_readFromDisk _ read read.range))
  · rcases hverdict : s.ask.2.inheritVerdict read with ⟨t, read', result⟩
    have hparts := hasked.trans (inheritVerdict_parts hverdict)
    rw [hverdict] at h
    cases result with
    | some result =>
      cases h
      exact .stay hparts
    | none =>
      have hcore : read'.core = read.core := core_of_parts hparts
      refine (addReader_stepped (fun hne => ?_) h).of_parts hparts
      exact (congrArg PendingRead.readerId hcore).trans
        (hfree fun heq => hne ((congrArg PendingRead.phase hcore).trans heq))

lemma afterSettling_stepped (h : s.afterSettling read = some p) :
    Stepped [.recheck, .peerWait, .pieceWait] s read p := by
  have hlater : [ReadPhase.peerWait, .pieceWait] ⊆ [.recheck, .peerWait, .pieceWait] := by simp
  unfold afterSettling at h
  have hasked := parts_ask s read
  dsimp only at h
  split at h
  · exact ((beginWaiting_stepped hfree h).of_parts hasked).mono hlater
  · generalize s.ask.2.stalePiecesInRange read.infoHash s.ask.1 read.range = stalePieces at h
    have hcore := PendingRead.core_foldl_recordStalePiece stalePieces read
    generalize stalePieces.foldl PendingRead.recordStalePiece read = staleRead at h hcore
    obtain ⟨t, ht, hstart⟩ := startRecheck_cases s.ask.2 staleRead
    have hstale := (hasked.trans (parts_note _ hcore)).trans ht
    rcases hstart with hstart | ⟨read', hstart, hentry⟩
    · rw [hstart] at h
      refine ((beginWaiting_stepped (fun hne => ?_) h).of_parts hstale).mono hlater
      exact (congrArg PendingRead.readerId hcore).trans
        (hfree fun heq => hne ((congrArg PendingRead.phase hcore).trans heq))
    · rw [hstart] at h
      cases h
      exact .enter hstale (by simp) hentry

end

lemma pollWaitState_stepped (hphase : read.phase = .waitState)
    (h : s.pollWaitState read = some p) : Stepped ReadPhase.waitState.next s read p := by
  unfold pollWaitState at h
  have hasked := parts_ask s read
  dsimp only at h
  split at h
  · cases h
    exact .stay hasked
  split at h
  · cases h
    exact .stay hasked
  split at h
  · cases h
    exact .stay hasked
  · next status _ =>
    have hstatus : Parts (s, read) (s.ask.2, { read with status := status }) :=
      hasked.trans (parts_note _ rfl)
    split at h
    · cases h
      exact .stay hstatus
    · refine (afterSettling_stepped (fun hne => ?_) h).of_parts hstatus
      exact absurd hphase hne

lemma finishRecheck_stepped (h : s.finishRecheck read = some p) :
    Stepped ReadPhase.recheck.next s read p := by
  unfold finishRecheck at h
  have hmarked : Parts (s, read)
      ({ s with scheduler := s.scheduler.markPrioritiesDirty read.infoHash }, read) :=
    .single (.markDirty s read)
  split at h
  · -- a read that has its reader goes straight back to its pieces
    have hasked := hmarked.trans (parts_ask _ read)
    obtain ⟨scheduler, hscheduler, rfl⟩ := Option.map_eq_some_iff.mp h
    split at hscheduler
    · exact .enter (hasked.tail (.recompute _ read hscheduler)) (by simp [ReadPhase.next])
        (.resume _ read)
    · cases hscheduler
      exact .enter hasked (by simp [ReadPhase.next]) (.resume _ read)
  · next hnone => exact (beginWaiting_stepped (fun _ => by simpa using hnone) h).of_parts hmarked

lemma pollRecheck_stepped (h : s.pollRecheck read = some p) :
    Stepped ReadPhase.recheck.next s read p := by
  unfold pollRecheck at h
  have hasked := parts_ask s read
  have hasked' := hasked.trans (parts_ask _ read)
  dsimp only at h
  split at h
  · cases h
    exact .stay hasked
  split at h
  · exact (finishRecheck_stepped h).of_parts hasked
  split at h
  · exact (finishRecheck_stepped h).of_parts hasked
  split at h
  · cases h
    exact .stay (hasked'.trans (parts_note _ rfl))
  split at h
  · exact (finishRecheck_stepped h).of_parts hasked'
  · cases h
    exact .stay hasked'

section

variable (s) (hphase : read.phase = .peerWait)
include hphase

lemma endPeerWait_stepped : Stepped ReadPhase.peerWait.next s read (s.endPeerWait read) := by
  unfold endPeerWait
  have hasked := parts_ask s read
  dsimp only
  split
  · split
    · exact .stay hasked
    · exact .enter (hasked.trans (parts_ask _ read)) (by simp [ReadPhase.next])
        (.windowEnded _ read _ _ _ hphase)
  · exact .stay hasked

lemma probePeers_stepped : Stepped ReadPhase.peerWait.next s read (s.probePeers read) := by
  unfold probePeers
  have hasked := parts_ask s read
  dsimp only
  split
  · split
    · exact .stay hasked
    · next status _ =>
      have hstatus : Parts (s, read) (s.ask.2.ask.2, { read with status := status }) :=
        (hasked.trans (parts_ask _ read)).trans (parts_note _ rfl)
      split
      · next hpresent =>
        exact .enter hstatus (by simp [ReadPhase.next]) (.peerFound _ _ _ hphase hpresent)
      · split
        · exact .stay hstatus
        · next hflight => exact .stay (hstatus.tail (.reannounce _ _ _ hflight))
  · exact .stay hasked

lemma pollPeerWait_stepped : Stepped ReadPhase.peerWait.next s read (s.pollPeerWait read) := by
  unfold pollPeerWait
  have hasked := parts_ask s read
  dsimp only
  split
  · exact .stay hasked
  split
  · exact (endPeerWait_stepped _ hphase).of_parts hasked
  · exact (probePeers_stepped _ hphase).of_parts hasked

end

lemma noteSeeder_cases (s : EngineState) (read : PendingRead) :
    (∃ t, s.noteSeeder read = (t, read) ∧ Parts (s, read) (t, read)) ∨
      ∃ t status now, read.hasSeeder = false ∧ Parts (s, read) (t, read) ∧ s.noteSeeder read = (t,
        { read with hasSeeder := true, pieceWaitStart := now, status := status }) := by
  unfold noteSeeder
  split
  · exact .inl ⟨s, rfl, .refl⟩
  · next hseeder =>
    dsimp only
    split
    · exact .inl ⟨_, rfl, parts_ask s read⟩
    · split
      · exact .inr ⟨_, _, _, Bool.not_eq_true _ ▸ hseeder,
          (parts_ask s read).trans (parts_ask _ read), rfl⟩
      · exact .inl ⟨_, rfl, parts_ask s read⟩

lemma awaitPiece_stepped (s : EngineState) (hphase : read.phase = .pieceWait) (piece : ℤ) :
    Stepped ReadPhase.pieceWait.next s read (s.awaitPiece read piece) := by
  unfold awaitPiece
  rcases noteSeeder_cases s read with ⟨t, hnote, hparts⟩ | ⟨t, status, now, hseeder, hparts, hnote⟩
  · rw [hnote]
    dsimp only
    have hasked := hparts.trans (parts_ask t read)
    split
    · exact .stay (hasked.trans (parts_readTimedOut _ read piece _ none))
    · exact .stay hasked
  · rw [hnote]
    dsimp only
    have hasked := parts_ask t
      { read with hasSeeder := true, pieceWaitStart := now, status := status }
    split
    · exact .seeder status now hparts hphase hseeder
        (hasked.trans (parts_readTimedOut _ _ piece _ none))
    · exact .seeder status now hparts hphase hseeder hasked

lemma pollPieces_stepped (pieces : List ℤ) :
    ∀ (s : EngineState) (read : PendingRead), read.phase = .pieceWait →
      Stepped ReadPhase.pieceWait.next s read (s.pollPieces read pieces) := by
  induction pieces with
  | nil => exact fun s read _ => .stay (parts_readFromDisk s read read.range)
  | cons piece rest ih =>
    intro s read hphase
    unfold pollPieces
    have hasked := parts_ask s read
    dsimp only
    split
    · refine Stepped.of_parts (ih _ _ ?_) (hasked.trans (parts_note _ ?_))
      · exact hphase
      · rfl
    split
    · have hcore := PendingRead.core_recordStalePiece read piece
      generalize read.recordStalePiece piece = staleRead at hcore ⊢
      obtain ⟨t, ht, hstart⟩ := startRecheck_cases s.ask.2 staleRead
      have hstale := (hasked.trans (parts_note _ hcore)).trans ht
      rcases hstart with hstart | ⟨read', hstart, hentry⟩
      · rw [hstart]
        have hphase' : staleRead.phase = .pieceWait :=
          (congrArg PendingRead.phase hcore).trans hphase
        exact (awaitPiece_stepped t hphase' piece).of_parts hstale
      · rw [hstart]
        exact .enter hstale (by simp [ReadPhase.next]) hentry
    · exact (awaitPiece_stepped _ hphase piece).of_parts hasked

lemma pollPieceWait_stepped (s : EngineState) (hphase : read.phase = .pieceWait) :
    Stepped ReadPhase.pieceWait.next s read (s.pollPieceWait read) := by
  unfold pollPieceWait
  have hasked := parts_ask s read
  dsimp only
  split
  · exact .stay hasked
  · exact (pollPieces_stepped _ _ read hphase).of_parts hasked

lemma pollRead_stepped (h : s.pollRead read = some p) : Stepped read.phase.next s read p := by
  unfold pollRead at h
  split at h
  · cases hphase : read.phase with
    | waitState =>
      rw [hphase] at h
      exact pollWaitState_stepped hphase h
    | recheck =>
      rw [hphase] at h
      exact pollRecheck_stepped h
    | peerWait =>
      rw [hphase] at h
      cases h
      exact pollPeerWait_stepped s hphase
    | pieceWait =>
      rw [hphase] at h
      cases h
      exact pollPieceWait_stepped s hphase
  · cases h
    exact .stay .refl

/-! ### What a step leaves in place -/

/-- What every part of a step but a reply leaves in place. -/
structure Frame (s t : EngineState) : Prop where
  handles : t.handles = s.handles
  pendingReads : t.pendingReads = s.pendingReads
  replies : t.replies = s.replies
  accepted : t.accepted = s.accepted
  isRunning : t.isRunning = s.isRunning
  timeouts : t.timeouts = s.timeouts

lemma Frame.refl (s : EngineState) : Frame s s := ⟨rfl, rfl, rfl, rfl, rfl, rfl⟩

lemma Frame.trans (h : Frame s t) (h' : Frame t u) : Frame s u :=
  ⟨h'.handles.trans h.handles, h'.pendingReads.trans h.pendingReads,
    h'.replies.trans h.replies, h'.accepted.trans h.accepted, h'.isRunning.trans h.isRunning,
    h'.timeouts.trans h.timeouts⟩

/-- A step that touches no reader. -/
structure Quiet (s t : EngineState) : Prop extends Frame s t where
  readers : SameReaders s.scheduler t.scheduler
  sized : ∀ pieceCount, s.scheduler.Sized pieceCount → t.scheduler.Sized pieceCount

lemma Quiet.refl (s : EngineState) : Quiet s s := ⟨.refl s, ⟨rfl, rfl⟩, fun _ h => h⟩

lemma Quiet.trans (h : Quiet s t) (h' : Quiet t u) : Quiet s u :=
  ⟨h.toFrame.trans h'.toFrame, h.readers.trans h'.readers,
    fun pieceCount hs => h'.sized pieceCount (h.sized pieceCount hs)⟩

lemma Quiet.of_frame (h : Frame s t) (hscheduler : t.scheduler = s.scheduler) : Quiet s t :=
  ⟨h, by rw [hscheduler]; exact ⟨rfl, rfl⟩, fun _ hs => hscheduler ▸ hs⟩

lemma quiet_ask (s : EngineState) : Quiet s s.ask.2 :=
  .of_frame ⟨rfl, rfl, rfl, rfl, rfl, rfl⟩ rfl

lemma quiet_pieceReady (s : EngineState) (infoHash : Str) (piece : ℤ) :
    Quiet s (s.pieceReady infoHash piece) := by
  unfold pieceReady
  split
  · exact ⟨⟨rfl, rfl, rfl, rfl, rfl, rfl⟩,
      PieceScheduler.sameReaders_pieceReady s.scheduler infoHash piece,
      fun _ h => h.pieceReady infoHash piece⟩
  · exact .refl s

lemma Part.quiet {a b : EngineState × PendingRead} (h : Part a b) : Quiet a.1 b.1 := by
  cases h with
  | ask | note | reannounce | dropVerdict | applyVerdict =>
    exact .of_frame ⟨rfl, rfl, rfl, rfl, rfl, rfl⟩ rfl
  | pieceReady s read piece => exact quiet_pieceReady s read.infoHash piece
  | markDirty s read =>
    obtain ⟨hreaders, hsized⟩ := PieceScheduler.markPrioritiesDirty_spec s.scheduler read.infoHash
    exact ⟨⟨rfl, rfl, rfl, rfl, rfl, rfl⟩, hreaders, hsized⟩
  | recompute s read recomputed =>
    exact ⟨⟨rfl, rfl, rfl, rfl, rfl, rfl⟩, PieceScheduler.sameReaders_recompute recomputed,
      fun _ h => h.of_recompute recomputed⟩

lemma quiet_of_parts {a b : EngineState × PendingRead} (h : Parts a b) : Quiet a.1 b.1 := by
  induction h with
  | refl => exact .refl _
  | tail _ part ih => exact ih.trans part.quiet

/-- What a step of a read leaves in place: the books of the engine, and what tells the read from
the others. -/
structure Passed (s : EngineState) (read : PendingRead) (t : EngineState) (read' : PendingRead) :
    Prop extends Frame s t where
  info : read'.info = read.info
  infoHash : read'.infoHash = read.infoHash
  reply : read'.reply = read.reply
  waitingSince : read'.waitingSince = read.waitingSince

lemma Passed.trans (h : Passed s read t read') (h' : Passed t read' u read'') :
    Passed s read u read'' :=
  ⟨h.toFrame.trans h'.toFrame, h'.info.trans h.info, h'.infoHash.trans h.infoHash,
    h'.reply.trans h.reply, h'.waitingSince.trans h.waitingSince⟩

lemma passed_of_parts (h : Parts (s, read) (t, read')) : Passed s read t read' := by
  have hcore : read'.core = read.core := core_of_parts h
  exact ⟨(quiet_of_parts h).toFrame, congrArg (·.info) hcore, congrArg (·.infoHash) hcore,
    congrArg (·.reply) hcore, congrArg (·.waitingSince) hcore⟩

lemma Entry.passed {phase : ReadPhase} (h : Entry phase (s, read) (t, read')) :
    Passed s read t read' ∧ read'.phase = phase := by
  cases h with
  | discover adds | download adds =>
    rename_i added
    cases added <;> exact ⟨⟨⟨rfl, rfl, rfl, rfl, rfl, rfl⟩, rfl, rfl, rfl, rfl⟩, rfl⟩
  | _ => exact ⟨⟨⟨rfl, rfl, rfl, rfl, rfl, rfl⟩, rfl, rfl, rfl, rfl⟩, rfl⟩

lemma Stepped.passed (h : Stepped phases s read p) : Passed s read p.state p.read := by
  cases h with
  | stay parts => exact passed_of_parts parts
  | enter before mem entry => exact (passed_of_parts before).trans entry.passed.1
  | seeder status now before phase hasSeeder after =>
    refine (passed_of_parts before).trans (Passed.trans ?_ (passed_of_parts after))
    exact ⟨.refl _, rfl, rfl, rfl, rfl⟩

/-! ### What a step does to the readers -/

/-- Two stages of one read with the same registration. -/
structure SameRead (read read' : PendingRead) : Prop where
  info : read'.info = read.info
  infoHash : read'.infoHash = read.infoHash
  reply : read'.reply = read.reply
  readerId : read'.readerId = read.readerId
  isRegistered : read'.isRegistered = read.isRegistered

lemma SameRead.trans (h : SameRead read read') (h' : SameRead read' read'') :
    SameRead read read'' :=
  ⟨h'.info.trans h.info, h'.infoHash.trans h.infoHash, h'.reply.trans h.reply,
    h'.readerId.trans h.readerId, h'.isRegistered.trans h.isRegistered⟩

lemma SameRead.of_core (h : read'.core = read.core) : SameRead read read' :=
  ⟨congrArg (·.info) h, congrArg (·.infoHash) h, congrArg (·.reply) h, congrArg (·.readerId) h,
    congrArg (·.isRegistered) h⟩

/-- A step that touches no reader, on a read that keeps its registration. -/
structure Kept (s : EngineState) (read : PendingRead) (p : Polled) : Prop where
  quiet : Quiet s p.state
  same : SameRead read p.read
  phase : p.read.phase = .waitState → read.phase = .waitState

/-- The read's torrent is the one it is filed under, with `pieceCount` pieces. -/
structure Known (pieceCount : Str → ℕ) (read : PendingRead) : Prop where
  infoHash : read.info.infoHash = .ok read.infoHash
  count : (toI32 read.info.numPieces).toNat = pieceCount read.infoHash

variable {pieceCount : Str → ℕ}

lemma Known.of_same (h : Known pieceCount read) (hinfo : read'.info = read.info)
    (hhash : read'.infoHash = read.infoHash) : Known pieceCount read' := by
  constructor
  · rw [hinfo, hhash, h.infoHash]
  · rw [hinfo, hhash, h.count]

/-- A step that registers a read under the next id and parks it. -/
structure Registered (pieceCount : Str → ℕ) (s : EngineState) (read : PendingRead) (p : Polled) :
    Prop where
  handle : read.infoHash ∈ s.handles
  free : read.readerId = none
  parked : p.result = none
  phase : p.read.phase ≠ .waitState
  frame : Frame s p.state
  info : p.read.info = read.info
  infoHash : p.read.infoHash = read.infoHash
  reply : p.read.reply = read.reply
  readerId : p.read.readerId = some s.scheduler.nextReadId
  nextReadId : p.state.scheduler.nextReadId = addU64 s.scheduler.nextReadId 1
  sized : p.state.scheduler.Sized pieceCount
  idsOf : ∀ k, p.state.scheduler.idsOf k =
    if p.read.isRegistered = true ∧ k = read.infoHash then
      s.scheduler.idsOf k ++ [s.scheduler.nextReadId]
    else s.scheduler.idsOf k

def Effect (pieceCount : Str → ℕ) (s : EngineState) (read : PendingRead) (p : Polled) : Prop :=
  Kept s read p ∨ Registered pieceCount s read p

lemma Effect.of_parts (h : Effect pieceCount t read' p) (hparts : Parts (s, read) (t, read')) :
    Effect pieceCount s read p := by
  have hquiet : Quiet s t := quiet_of_parts hparts
  have hcore : read'.core = read.core := core_of_parts hparts
  have hsame := SameRead.of_core hcore
  rcases h with hkept | hreg
  · exact .inl ⟨hquiet.trans hkept.quiet, hsame.trans hkept.same, fun hp =>
      (congrArg (·.phase) hcore).symm.trans (hkept.phase hp)⟩
  · refine .inr ⟨?_, hsame.readerId.symm.trans hreg.free, hreg.parked, hreg.phase,
      hquiet.toFrame.trans hreg.frame, hreg.info.trans hsame.info,
      hreg.infoHash.trans hsame.infoHash, hreg.reply.trans hsame.reply, ?_, ?_, hreg.sized, ?_⟩
    · rw [← hsame.infoHash, ← hquiet.handles]
      exact hreg.handle
    · rw [hreg.readerId, hquiet.readers.nextReadId]
    · rw [hreg.nextReadId, hquiet.readers.nextReadId]
    · intro k
      rw [hreg.idsOf, hquiet.readers.idsOf_eq, hquiet.readers.nextReadId, hsame.infoHash]

lemma Adds.registered {scheduler : PieceScheduler} {added : Except FfiError (ℕ × Bool)}
    (h : Adds s read scheduler added) (hsized : s.scheduler.Sized pieceCount)
    (hknown : Known pieceCount read) (hfree : read.readerId = none)
    (hframe : Frame s t) (hscheduler : t.scheduler = scheduler)
    (hsame : SameRead (read.withReader added) read') (hphase : read'.phase ≠ .waitState) :
    Registered pieceCount s read ⟨t, read', none⟩ := by
  obtain ⟨filePieceInfo, isComplete, hadded⟩ := h.readerAdded
  obtain ⟨scheduler', registered, hspec, hsized', hnext, hids⟩ :=
    PieceScheduler.readerAdded_spec hsized hknown.infoHash hknown.count read.fileIndex read.offset
      read.range.size filePieceInfo isComplete
  obtain ⟨rfl, rfl⟩ := Prod.mk.inj (Option.some.inj (hspec.symm.trans hadded))
  subst hscheduler
  refine ⟨h.handle, hfree, rfl, hphase, hframe, hsame.info, hsame.infoHash, hsame.reply,
    hsame.readerId, hnext, hsized', fun k => ?_⟩
  rw [hsame.isRegistered]
  exact hids k

lemma Entry.effect {phase : ReadPhase} (h : Entry phase (s, read) (t, read'))
    (hsized : s.scheduler.Sized pieceCount) (hknown : Known pieceCount read)
    (hfree : read.phase = .waitState → read.readerId = none) :
    Effect pieceCount s read ⟨t, read', none⟩ := by
  have hframe := h.passed.1.toFrame
  cases h with
  | discover adds | download adds =>
    have hnone : read.readerId = none := by
      by_cases hphase : read.phase = .waitState
      · exact hfree hphase
      · exact adds.free hphase
    exact .inr (adds.registered hsized hknown hnone hframe rfl ⟨rfl, rfl, rfl, rfl, rfl⟩ nofun)
  | _ => exact .inl ⟨.of_frame hframe rfl, ⟨rfl, rfl, rfl, rfl, rfl⟩, nofun⟩

lemma Stepped.effect (h : Stepped phases s read p) (hsized : s.scheduler.Sized pieceCount)
    (hknown : Known pieceCount read) (hfree : read.phase = .waitState → read.readerId = none) :
    Effect pieceCount s read p := by
  cases h with
  | stay parts =>
    have hcore : _ = read.core := core_of_parts parts
    exact .inl ⟨quiet_of_parts parts, .of_core hcore, fun hp =>
      (congrArg (·.phase) hcore).symm.trans hp⟩
  | @enter b _ _ _ before mem entry =>
    have hcore : b.2.core = read.core := core_of_parts before
    have hsame := SameRead.of_core hcore
    refine (entry.effect ((quiet_of_parts before).sized pieceCount hsized)
      (hknown.of_same hsame.info hsame.infoHash) fun hp => ?_).of_parts before
    exact hsame.readerId.trans (hfree ((congrArg (·.phase) hcore).symm.trans hp))
  | @seeder u t read₁ read' _ status now before phase hasSeeder after =>
    have hcore : read₁.core = read.core := core_of_parts before
    have hcore' := core_of_parts after
    refine .inl ⟨(quiet_of_parts before).trans (quiet_of_parts after),
      (SameRead.of_core hcore).trans (SameRead.trans ?_ (.of_core hcore')), fun hp => ?_⟩
    · exact ⟨rfl, rfl, rfl, rfl, rfl⟩
    · cases ((congrArg (·.phase) hcore').symm.trans hp).symm.trans phase

/-! ### Steps do not panic -/

structure Ready (pieceCount : Str → ℕ) (s : EngineState) (read : PendingRead) : Prop where
  sized : s.scheduler.Sized pieceCount
  known : Known pieceCount read

section

variable (h : Ready pieceCount s read)
include h

lemma Ready.of_parts (hparts : Parts (s, read) (t, read')) : Ready pieceCount t read' := by
  have hpassed := passed_of_parts hparts
  exact ⟨(quiet_of_parts hparts).sized pieceCount h.sized,
    h.known.of_same hpassed.info hpassed.infoHash⟩

lemma exists_addReader : ∃ p, s.addReader read = some p := by
  unfold addReader
  split
  · obtain ⟨scheduler, registered, hadded, -⟩ := PieceScheduler.readerAdded_spec
      ((quiet_ask s).sized pieceCount h.sized) h.known.infoHash h.known.count read.fileIndex
      read.offset read.range.size s.ask.1.filePieceInfo s.ask.1.isPieceComplete
    dsimp only
    rw [hadded]
    exact ⟨_, rfl⟩
  · exact ⟨_, rfl⟩

lemma exists_beginWaiting : ∃ p, s.beginWaiting read = some p := by
  unfold beginWaiting
  dsimp only
  split
  · exact ⟨_, rfl⟩
  · rcases hverdict : s.ask.2.inheritVerdict read with ⟨t, read', result⟩
    cases result with
    | some result => exact ⟨_, rfl⟩
    | none =>
      exact exists_addReader (h.of_parts ((parts_ask s read).trans (inheritVerdict_parts hverdict)))

lemma exists_afterSettling : ∃ p, s.afterSettling read = some p := by
  unfold afterSettling
  have hasked := parts_ask s read
  dsimp only
  split
  · exact exists_beginWaiting (h.of_parts hasked)
  · generalize s.ask.2.stalePiecesInRange read.infoHash s.ask.1 read.range = stalePieces
    have hstale := hasked.trans
      (parts_note _ (PendingRead.core_foldl_recordStalePiece stalePieces read))
    obtain ⟨t, ht, hstart | ⟨read', hstart, -⟩⟩ :=
      startRecheck_cases s.ask.2 (stalePieces.foldl PendingRead.recordStalePiece read)
    · rw [hstart]
      exact exists_beginWaiting (h.of_parts (hstale.trans ht))
    · rw [hstart]
      exact ⟨_, rfl⟩

lemma exists_pollWaitState : ∃ p, s.pollWaitState read = some p := by
  unfold pollWaitState
  dsimp only
  split
  · exact ⟨_, rfl⟩
  split
  · exact ⟨_, rfl⟩
  split
  · exact ⟨_, rfl⟩
  split
  · exact ⟨_, rfl⟩
  · exact exists_afterSettling (h.of_parts ((parts_ask s read).trans (parts_note _ rfl)))

lemma exists_finishRecheck : ∃ p, s.finishRecheck read = some p := by
  unfold finishRecheck
  have hmarked := h.of_parts (.single (.markDirty s read))
  dsimp only
  split
  · split
    · obtain ⟨scheduler, hscheduler, -⟩ := PieceScheduler.recompute_spec
        (hmarked.of_parts (parts_ask _ read)).sized read.infoHash _
      exact ⟨_, by rw [hscheduler]; rfl⟩
    · exact ⟨_, rfl⟩
  · exact exists_beginWaiting hmarked

lemma exists_pollRecheck : ∃ p, s.pollRecheck read = some p := by
  unfold pollRecheck
  have hasked := h.of_parts (parts_ask s read)
  dsimp only
  split
  · exact ⟨_, rfl⟩
  split
  · exact exists_finishRecheck hasked
  split
  · exact exists_finishRecheck hasked
  split
  · exact ⟨_, rfl⟩
  split
  · exact exists_finishRecheck (hasked.of_parts (parts_ask _ read))
  · exact ⟨_, rfl⟩

lemma exists_pollRead : ∃ p, s.pollRead read = some p := by
  unfold pollRead
  split
  · split
    · exact exists_pollWaitState h
    · exact exists_pollRecheck h
    · exact ⟨_, rfl⟩
    · exact ⟨_, rfl⟩
  · exact ⟨_, rfl⟩

end

lemma handle_of_pollRead (h : s.pollRead read = some p) (hparked : p.result = none) :
    read.infoHash ∈ s.handles := by
  unfold pollRead at h
  split at h
  · assumption
  · cases h
    cases hparked

end EngineState

end TorrentFs.Download
