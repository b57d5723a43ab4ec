import TorrentFs.Download.ReadRange
import TorrentFs.Download.Scheduler

/-!
# The engine loop and its parked reads

The download engine is one thread that receives commands, drains the piece-finished events and
polls the reads it has parked. A read that cannot be served at once is parked in one of four
phases: it waits for its torrent to settle, for a recheck, for a peer, or for its pieces. Each
iteration of the loop advances every parked read by one step.

Everything the engine learns from outside (libtorrent's handles, the piece store, the clock and
the stop flag) is an answer to a question. The answers to come are the stream `outside` of the
state: each call takes the next one, so nothing ties one answer to another.

A function returns `none` where the thread panics: this is where the scheduler indexes a priority
vector out of bounds.
-/

namespace TorrentFs.Download

open Text Word

/-! ### Statuses, windows and verdicts -/

inductive TorrentState
  | queuedForChecking
  | checkingFiles
  | downloadingMetadata
  | downloading
  | finished
  | seeding
  | allocating
  | checkingResumeData
  | unknown
deriving DecidableEq

structure TorrentStatus where
  state : TorrentState
  numPeers : ℤ
  numSeeds : ℤ

def isSettlingState : TorrentState → Bool
  | .queuedForChecking | .checkingFiles | .allocating | .checkingResumeData => true
  | _ => false

def swarmIsEmpty (numPeers numSeeds : ℤ) : Bool := numPeers == 0 && numSeeds == 0

def secs (n : ℕ) : ℕ := n * 1000000000

def instantEnd : ℕ := secs (2 ^ 63)

def deadlineFrom (now duration : ℕ) : ℕ :=
  if now + duration < instantEnd then now + duration
  else if now + secs (365 * 24 * 60 * 60) < instantEnd then now + secs (365 * 24 * 60 * 60)
  else now

def recheckWaitCapSecs : ℕ := 10

def peerDiscoveryWindowSecs (readTimeoutSecs peerDiscoveryWaitSecs : ℕ)
    (peerWaitCapSecs : Option ℕ) : ℕ :=
  let window := min readTimeoutSecs peerDiscoveryWaitSecs
  peerWaitCapSecs.elim window (min window)

def pieceWaitWindowSecs (hasSeeder isPeerWaitExhausted : Bool)
    (readTimeoutSecs noSeederReadTimeoutSecs : ℕ) : ℕ :=
  if hasSeeder then readTimeoutSecs
  else if isPeerWaitExhausted then 0
  else min readTimeoutSecs noSeederReadTimeoutSecs

structure ColdFlight where
  started : ℕ
  deadline : ℕ
  reannounced : Bool

namespace ColdFlight

def new (now window : ℕ) : ColdFlight := ⟨now, deadlineFrom now window, false⟩

def isExpired (flight : ColdFlight) (now : ℕ) : Bool := flight.deadline ≤ now

def takeReannounce (flight : ColdFlight) (now : ℕ) : Bool × ColdFlight :=
  if flight.reannounced ∨ now - flight.started < (flight.deadline - flight.started) / 2 then
    (false, flight)
  else (true, { flight with reannounced := true })

end ColdFlight

/-- `SourcelessSwarm`: the verdict of a probe that gave up on an empty swarm. -/
structure SourcelessSwarm where
  gaveUp : ℕ
  window : ℕ
  elapsed : ℕ
  lastAnnounce : ℕ

namespace SourcelessSwarm

def new (gaveUp window elapsed : ℕ) : SourcelessSwarm := ⟨gaveUp, window, elapsed, gaveUp⟩

def isLive (verdict : SourcelessSwarm) (now : ℕ) : Bool := now - verdict.gaveUp < verdict.window

def takeReannounce (verdict : SourcelessSwarm) (now : ℕ) : Bool × SourcelessSwarm :=
  if now - verdict.lastAnnounce < verdict.window / 2 then (false, verdict)
  else (true, { verdict with lastAnnounce := now })

end SourcelessSwarm

/-! ### Errors -/

inductive NoSeederWait
  | peerDiscoveryWindow (secs : ℕ) (formula advice : Str)
  | noSeederPieceWait (secs discoveryWindowSecs : ℕ)
deriving DecidableEq

inductive ReadStallCause
  | noSeeder
  | cacheStall
  | slowSwarm
deriving DecidableEq

/-- What a read can fail with: one constructor per message, with the values the message shows. -/
inductive TorrentError
  | ffi (error : FfiError)
  | ioError (message : Str)
  | handleInvalid
  | missing
  | aborted
  | stuckInState (state : TorrentState) (secs : ℕ)
  | range (error : ReadError)
  | statusUnavailable (piece : ℤ) (secs : ℕ)
  | noPeers (infoHash : Str) (peerWaitSecs : ℕ) (wait : NoSeederWait)
  | cacheStall (infoHash : Str) (secs capacity span : ℕ) (isStale : Bool) (numSeeds : ℤ)
  | slowSwarm (piece : ℤ) (secs : ℕ)
deriving DecidableEq

abbrev ReadResult := Except TorrentError (List UInt8)

def discoveryWindowAdvice (readTimeoutSecs peerDiscoveryWaitSecs : ℕ)
    (peerWaitCapSecs : Option ℕ) : Str × Str :=
  let window := peerDiscoveryWindowSecs readTimeoutSecs peerDiscoveryWaitSecs peerWaitCapSecs
  let readTimeoutBinds := readTimeoutSecs == window
  let discoveryWaitBinds := peerDiscoveryWaitSecs == window
  let capBinds := peerWaitCapSecs == some window
  let advice :=
    if readTimeoutBinds && discoveryWaitBinds && capBinds then
      "raise [timeouts] read_timeout_secs, peer_discovery_wait_secs and " ++
        "peer_wait_cap_secs together (any one alone leaves the window unchanged) and retry"
    else if readTimeoutBinds && discoveryWaitBinds then
      "raise [timeouts] read_timeout_secs and peer_discovery_wait_secs together (either alone " ++
        "leaves the window unchanged) and retry"
    else if readTimeoutBinds && capBinds then
      "raise [timeouts] read_timeout_secs and peer_wait_cap_secs together (either alone leaves " ++
        "the window unchanged) and retry"
    else if discoveryWaitBinds && capBinds then
      "raise [timeouts] peer_discovery_wait_secs and peer_wait_cap_secs together (either alone " ++
        "leaves the window unchanged) and retry"
    else if readTimeoutBinds then
      "raise [timeouts] read_timeout_secs (it caps the window) and retry"
    else if capBinds then
      "raise [timeouts] peer_wait_cap_secs (it caps the window) and retry"
    else "raise [timeouts] peer_discovery_wait_secs and retry"
  let formula :=
    if peerWaitCapSecs.isSome then
      "min(read_timeout_secs, peer_discovery_wait_secs, peer_wait_cap_secs)"
    else "min(read_timeout_secs, peer_discovery_wait_secs)"
  (formula.toList, advice.toList)

def noSeederWait (isPeerWaitExhausted hasSeeder : Bool) (discoveryWindowSecs pieceWaitSecs : ℕ)
    (discovery : Str × Str) : NoSeederWait :=
  if isPeerWaitExhausted && !hasSeeder then
    .peerDiscoveryWindow discoveryWindowSecs discovery.1 discovery.2
  else .noSeederPieceWait pieceWaitSecs discoveryWindowSecs

def classifyReadStall (numSeeds : ℤ) (staleBlockers : List ℤ) (blockingPiece : ℤ)
    (readSpanBytes cacheCapacityBytes : ℕ) : ReadStallCause :=
  if blockingPiece ∈ staleBlockers then .cacheStall
  else if numSeeds = 0 then .noSeeder
  else if cacheCapacityBytes < readSpanBytes then .cacheStall
  else .slowSwarm

/-! ### Reads -/

inductive ReadPhase
  | waitState
  | recheck
  | peerWait
  | pieceWait
deriving DecidableEq

structure PreparedRead where
  info : TorrentInfo
  fileIndex : ℤ
  offset : ℕ
  infoHash : Str
  range : ReadRange
  status : TorrentStatus

structure PendingRead extends PreparedRead where
  currentPiece : ℤ
  /-- The number of the read, for its reply channel. -/
  reply : ℕ
  phase : ReadPhase
  phaseStart : ℕ
  phaseDeadline : ℕ
  isPeerWaitExhausted : Bool
  hasSeeder : Bool
  pieceWaitStart : ℕ
  peerWaitElapsed : ℕ
  staleBlockers : List ℤ
  sawChecking : Bool
  readerId : Option ℕ
  /-- Whether the scheduler got a gradient with the id. The code does not keep this. -/
  isRegistered : Bool
  waitingSince : ℕ

namespace PendingRead

def new (prepared : PreparedRead) (reply now : ℕ) : PendingRead where
  toPreparedRead := prepared
  currentPiece := prepared.range.startPiece
  reply := reply
  phase := .pieceWait
  phaseStart := now
  phaseDeadline := now
  isPeerWaitExhausted := false
  hasSeeder := false
  pieceWaitStart := now
  peerWaitElapsed := 0
  staleBlockers := []
  sawChecking := false
  readerId := none
  isRegistered := false
  waitingSince := now

def recordStalePiece (read : PendingRead) (piece : ℤ) : PendingRead :=
  if piece ∈ read.staleBlockers then read
  else { read with staleBlockers := read.staleBlockers ++ [piece] }

def remainingPieces (read : PendingRead) : List ℤ :=
  ReadRange.piecesFrom read.currentPiece (read.range.endPiece + 1 - read.currentPiece).toNat

end PendingRead

/-! ### The state -/

/-- What the outside answers to one call: the clock and the stop flag, the handle of the torrent
in question, and the piece store for the pieces of that torrent. -/
structure Answers where
  now : ℕ
  stopping : Bool
  createDirs : Except Str Unit
  addTorrent : Except FfiError Unit
  isValid : Bool
  status : Except FfiError TorrentStatus
  filePieceInfo : Except FfiError FilePieceInfo
  torrentInfo : Except FfiError (ℤ × ℤ)
  havePiece : ℤ → Bool
  forceRecheck : Bool
  hasStalePiece : ℤ → Bool
  isPieceComplete : ℤ → Bool
  hasPiece : ℤ → Bool
  readPiece : ℤ → Option (List UInt8)
  maxCacheSize : ℕ

/-- What the log of the engine records about the swarm of a torrent. -/
inductive SwarmEvent
  /-- `ensure_handle` has added a handle. -/
  | handleAdded
  /-- `remove_handle` was called. -/
  | handleRemoved
  /-- A read that starts to wait for a peer starts a cold flight, with a forced announce. -/
  | flightStarted
  /-- The forced announce in the middle of the window of a flight. -/
  | flightReannounced
  /-- A probe has given up, on this status. -/
  | gaveUp (numPeers numSeeds : ℤ) (now : ℕ)
deriving DecidableEq

/-- `EngineState`, with the replies it has sent and a log of its forced announces and verdicts. -/
@[ext]
structure EngineState where
  handles : Finset Str
  scheduler : PieceScheduler
  readTimeoutSecs : ℕ
  peerDiscoveryWaitSecs : ℕ
  peerWaitCapSecs : Option ℕ
  noSeederReadTimeoutSecs : ℕ
  pendingReads : List PendingRead
  coldFlights : FinMap Str ColdFlight
  sourceless : FinMap Str SourcelessSwarm
  /-- The answers to come. -/
  outside : ℕ → Answers
  /-- The number of reads handed to `start_read`. -/
  accepted : ℕ
  /-- The replies sent, each with the number of its read. -/
  replies : List (ℕ × ReadResult)
  isRunning : Bool
  /-- The events of the swarms, in their order. -/
  log : List (Str × SwarmEvent)

/-- A read after one step, and its result when it has ended. -/
structure Polled where
  state : EngineState
  read : PendingRead
  result : Option ReadResult

namespace EngineState

def new (config : PiecePriorityConfig) (cacheCapacityBytes readTimeoutSecs : ℕ)
    (peerDiscoveryWaitSecs : ℕ) (peerWaitCapSecs : Option ℕ) (noSeederReadTimeoutSecs : ℕ)
    (outside : ℕ → Answers) : EngineState where
  handles := ∅
  scheduler := .new config cacheCapacityBytes
  readTimeoutSecs := readTimeoutSecs
  peerDiscoveryWaitSecs := peerDiscoveryWaitSecs
  peerWaitCapSecs := peerWaitCapSecs
  noSeederReadTimeoutSecs := noSeederReadTimeoutSecs
  pendingReads := []
  coldFlights := .empty
  sourceless := .empty
  outside := outside
  accepted := 0
  replies := []
  isRunning := true
  log := []

def ask (s : EngineState) : Answers × EngineState :=
  (s.outside 0, { s with outside := fun n => s.outside (n + 1) })

def send (s : EngineState) (reply : ℕ) (result : ReadResult) : EngineState :=
  { s with replies := s.replies ++ [(reply, result)] }

def park (s : EngineState) (read : PendingRead) : EngineState :=
  { s with pendingReads := s.pendingReads ++ [read] }

def statusOf (s : EngineState) (infoHash : Str) (a : Answers) : Option TorrentStatus :=
  if infoHash ∈ s.handles then a.status.toOption else none

def peerDiscoveryWindow (s : EngineState) : ℕ :=
  peerDiscoveryWindowSecs s.readTimeoutSecs s.peerDiscoveryWaitSecs s.peerWaitCapSecs

/-! ### Handles -/

def ensureHandle (s : EngineState) (info : TorrentInfo) : EngineState × Except TorrentError Unit :=
  match info.infoHash with
  | .error e => (s, .error (.ffi e))
  | .ok infoHash =>
    if infoHash ∈ s.handles then (s, .ok ())
    else
      let (a, s) := s.ask
      match a.createDirs, a.addTorrent, a.torrentInfo with
      | .error message, _, _ => (s, .error (.ioError message))
      | .ok _, .error e, _ => (s, .error (.ffi e))
      | .ok _, .ok _, .error e => (s, .error (.ffi e))
      | .ok _, .ok _, .ok (pieceLength, numPieces) =>
        ({ s with
           scheduler := s.scheduler.initTorrent infoHash (wrapI32 numPieces) pieceLength
           sourceless := s.sourceless.erase infoHash
           handles := insert infoHash s.handles
           log := s.log ++ [(infoHash, .handleAdded)] }, .ok ())

def removeHandle (s : EngineState) (infoHash : Str) : EngineState :=
  { s with
    handles := s.handles.erase infoHash
    scheduler := s.scheduler.removeTorrent infoHash
    coldFlights := s.coldFlights.erase infoHash
    sourceless := s.sourceless.erase infoHash
    log := s.log ++ [(infoHash, .handleRemoved)] }

/-! ### Local pieces -/

def pieceIsLocal (s : EngineState) (infoHash : Str) (a : Answers) (piece : ℤ) : Bool :=
  decide (infoHash ∈ s.handles) &&
    ((a.havePiece piece && !a.hasStalePiece piece) || a.isPieceComplete piece)

def allPiecesLocal (s : EngineState) (infoHash : Str) (a : Answers) (range : ReadRange) : Bool :=
  range.pieceRange.all (s.pieceIsLocal infoHash a)

def stalePiecesInRange (s : EngineState) (infoHash : Str) (a : Answers) (range : ReadRange) :
    List ℤ :=
  if infoHash ∈ s.handles then
    range.pieceRange.filter fun piece => a.havePiece piece && a.hasStalePiece piece
  else []

def pieceReady (s : EngineState) (infoHash : Str) (piece : ℤ) : EngineState :=
  if infoHash ∈ s.handles then { s with scheduler := s.scheduler.pieceReady infoHash piece }
  else s

/-- `read_from_disk`: after a full read every piece that the store does not have is registered. -/
def readFromDisk (s : EngineState) (infoHash : Str) (range : ReadRange) :
    EngineState × ReadResult :=
  let (a, s) := s.ask
  match (range.readFromDisk a.readPiece).2 with
  | .error e => (s, .error (.range e))
  | .ok bytes =>
    let unregistered := range.pieceRange.filter fun piece => !a.hasPiece piece
    (unregistered.foldl (fun s piece => s.pieceReady infoHash piece) s, .ok bytes)

def readTimedOut (s : EngineState) (read : PendingRead) (piece : ℤ) (windowSecs : ℕ)
    (snapshot : Option TorrentStatus) : EngineState × ReadResult :=
  match read.range.before piece with
  | some range => s.readFromDisk read.infoHash range
  | none =>
    let (a, s) := s.ask
    match snapshot.or (s.statusOf read.infoHash a) with
    | none => (s, .error (.statusUnavailable piece windowSecs))
    | some status =>
      let span := read.range.endOffset - read.range.absoluteOffset
      match classifyReadStall status.numSeeds read.staleBlockers piece span a.maxCacheSize with
      | .noSeeder =>
        let wait := noSeederWait read.isPeerWaitExhausted read.hasSeeder
          s.peerDiscoveryWindow windowSecs (discoveryWindowAdvice s.readTimeoutSecs
            s.peerDiscoveryWaitSecs s.peerWaitCapSecs)
        (s, .error (.noPeers read.infoHash (read.peerWaitElapsed / secs 1) wait))
      | .cacheStall =>
        (s, .error (.cacheStall read.infoHash windowSecs a.maxCacheSize span
          (decide (piece ∈ read.staleBlockers)) status.numSeeds))
      | .slowSwarm => (s, .error (.slowSwarm piece windowSecs))

/-! ### Entering a phase -/

def startRecheck (s : EngineState) (read : PendingRead) : EngineState × Option PendingRead :=
  let (a, s) := s.ask
  if read.infoHash ∈ s.handles ∧ a.forceRecheck = true then
    (s, some
      { read with
        phase := .recheck
        phaseStart := a.now
        phaseDeadline := a.now + secs (min s.readTimeoutSecs recheckWaitCapSecs)
        sawChecking := false })
  else (s, none)

/-- The flight a read attaches to in `enter_peer_wait`: the one that is there and not expired, or
a new one. -/
def coldFlight (s : EngineState) (infoHash : Str) (now : ℕ) : ColdFlight :=
  match s.coldFlights.get infoHash with
  | some flight =>
    if flight.isExpired now then .new now (secs s.peerDiscoveryWindow) else flight
  | none => .new now (secs s.peerDiscoveryWindow)

def startsFlight (s : EngineState) (infoHash : Str) (now : ℕ) : Bool :=
  (s.coldFlights.get infoHash).all (·.isExpired now)

def enterPeerWait (s : EngineState) (read : PendingRead) : EngineState × PendingRead :=
  let (a, s) := s.ask
  let flight := s.coldFlight read.infoHash a.now
  ({ s with
     coldFlights := s.coldFlights.insert read.infoHash flight
     log := s.log ++ if s.startsFlight read.infoHash a.now then
       [(read.infoHash, .flightStarted)] else [] },
    { read with
      phase := .peerWait
      phaseStart := flight.started
      phaseDeadline := flight.deadline })

def enterPieceWait (s : EngineState) (read : PendingRead) : EngineState × PendingRead :=
  let (a, s) := s.ask
  (s,
    { read with
      hasSeeder := decide (0 < read.status.numSeeds)
      pieceWaitStart := a.now
      phase := .pieceWait })

/-! ### Starting a read -/

/-- The part of `begin_waiting` that applies a recorded verdict. A verdict that does not speak for
the swarm any more is dropped. -/
def inheritVerdict (s : EngineState) (read : PendingRead) :
    EngineState × PendingRead × Option ReadResult :=
  match s.sourceless.get read.infoHash with
  | none => (s, read, none)
  | some verdict =>
    let (a, s) := s.ask
    match s.statusOf read.infoHash a with
    | none => ({ s with sourceless := s.sourceless.erase read.infoHash }, read, none)
    | some status =>
      let read := { read with status := status }
      if swarmIsEmpty status.numPeers status.numSeeds && verdict.isLive a.now then
        let s := { s with
          sourceless := s.sourceless.insert read.infoHash (verdict.takeReannounce a.now).2 }
        let (b, s) := s.ask
        let localPieces :=
          read.remainingPieces.takeWhile (s.pieceIsLocal read.infoHash b)
        let read := { read with
          currentPiece := read.currentPiece + localPieces.length
          isPeerWaitExhausted := true
          peerWaitElapsed := verdict.elapsed }
        let (s, result) := s.readTimedOut read read.currentPiece 0 (some status)
        (s, read, some result)
      else ({ s with sourceless := s.sourceless.erase read.infoHash }, read, none)

def addReader (s : EngineState) (read : PendingRead) : Option Polled :=
  if read.infoHash ∈ s.handles then
    let (a, s) := s.ask
    match s.scheduler.readerAdded read.info read.fileIndex read.offset read.range.size
        a.filePieceInfo a.isPieceComplete with
    | none => none
    | some (scheduler, added) =>
      let s := { s with scheduler := scheduler }
      let read := match added with
        | .ok (id, isRegistered) =>
          { read with readerId := some id, isRegistered := isRegistered }
        | .error _ => { read with readerId := none, isRegistered := false }
      let (s, read) :=
        if swarmIsEmpty read.status.numPeers read.status.numSeeds then s.enterPeerWait read
        else s.enterPieceWait read
      some ⟨s, read, none⟩
  else some ⟨s, read, some (.error .missing)⟩

def beginWaiting (s : EngineState) (read : PendingRead) : Option Polled :=
  let (a, s) := s.ask
  if s.allPiecesLocal read.infoHash a read.range then
    let (s, result) := s.readFromDisk read.infoHash read.range
    some ⟨s, read, some result⟩
  else
    match s.inheritVerdict read with
    | (s, read, some result) => some ⟨s, read, some result⟩
    | (s, read, none) => s.addReader read

def afterSettling (s : EngineState) (read : PendingRead) : Option Polled :=
  let (a, s) := s.ask
  let stalePieces := s.stalePiecesInRange read.infoHash a read.range
  if stalePieces = [] then s.beginWaiting read
  else
    let read := stalePieces.foldl PendingRead.recordStalePiece read
    match s.startRecheck read with
    | (s, some read) => some ⟨s, read, none⟩
    | (s, none) => s.beginWaiting read

def preparedFrom (a : Answers) (info : TorrentInfo) (infoHash : Str) (fileIndex : ℤ)
    (offset size : ℕ) : Except TorrentError (Option PreparedRead) :=
  if a.isValid then
    match a.status, a.filePieceInfo, a.torrentInfo with
    | .error e, _, _ => .error (.ffi e)
    | .ok _, .error e, _ => .error (.ffi e)
    | .ok _, .ok _, .error e => .error (.ffi e)
    | .ok status, .ok pieceInfo, .ok (pieceLength, numPieces) =>
      let fileSize := if 0 ≤ fileIndex then
        (info.files.bind fun files => files[fileIndex.toNat]?).getD u64Max else u64Max
      match prepareRange (toU64 pieceLength) (wrapI32 numPieces) info.totalSize
          (toU64 pieceInfo.fileOffset) fileSize offset size with
      | .error e => .error (.range e)
      | .ok none => .ok none
      | .ok (some range) => .ok (some ⟨info, fileIndex, offset, infoHash, range, status⟩)
  else .error .handleInvalid

def prepareRead (s : EngineState) (info : TorrentInfo) (fileIndex : ℤ) (offset size : ℕ) :
    EngineState × Except TorrentError (Option PreparedRead) :=
  match s.ensureHandle info, info.infoHash with
  | (s, .error e), _ => (s, .error e)
  | (s, .ok _), .error e => (s, .error (.ffi e))
  | (s, .ok _), .ok infoHash =>
    if infoHash ∈ s.handles then
      let (a, s) := s.ask
      (s, preparedFrom a info infoHash fileIndex offset size)
    else (s, .error .missing)

def admitRead (s : EngineState) (prepared : PreparedRead) (reply : ℕ) : Option EngineState :=
  let (a, s) := s.ask
  let read := PendingRead.new prepared reply a.now
  if isSettlingState read.status.state then
    let (b, s) := s.ask
    some (s.park { read with phase := .waitState, phaseStart := b.now })
  else
    (s.afterSettling read).map fun p =>
      match p.result with
      | some result => p.state.send p.read.reply result
      | none => p.state.park p.read

def startRead (s : EngineState) (info : TorrentInfo) (fileIndex : ℤ) (offset size : ℕ) :
    Option EngineState :=
  let reply := s.accepted
  let (a, s) := { s with accepted := s.accepted + 1 }.ask
  if a.stopping then some (s.send reply (.error .aborted))
  else
    match s.prepareRead info fileIndex offset size with
    | (s, .error e) => some (s.send reply (.error e))
    | (s, .ok none) => some (s.send reply (.ok []))
    | (s, .ok (some prepared)) => s.admitRead prepared reply

/-! ### Polling -/

def pollWaitState (s : EngineState) (read : PendingRead) : Option Polled :=
  let (a, s) := s.ask
  if a.stopping then some ⟨s, read, some (.error .aborted)⟩
  else if s.readTimeoutSecs < (a.now - read.phaseStart) / secs 1 then
    some ⟨s, read, some (.error (.stuckInState read.status.state s.readTimeoutSecs))⟩
  else
    match s.statusOf read.infoHash a with
    | none => some ⟨s, read, none⟩
    | some status =>
      let read := { read with status := status }
      if isSettlingState status.state then some ⟨s, read, none⟩ else s.afterSettling read

def finishRecheck (s : EngineState) (read : PendingRead) : Option Polled :=
  let s := { s with scheduler := s.scheduler.markPrioritiesDirty read.infoHash }
  if read.readerId.isSome then
    let (a, s) := s.ask
    let recomputed := if read.infoHash ∈ s.handles then
      s.scheduler.recompute read.infoHash a.isPieceComplete else some s.scheduler
    recomputed.map fun scheduler =>
      let (s, read) := { s with scheduler := scheduler }.enterPieceWait read
      ⟨s, read, none⟩
  else s.beginWaiting read

def pollRecheck (s : EngineState) (read : PendingRead) : Option Polled :=
  let (a, s) := s.ask
  if a.stopping then some ⟨s, read, some (.error .aborted)⟩
  else if read.phaseDeadline ≤ a.now then s.finishRecheck read
  else
    match s.statusOf read.infoHash a with
    | none => s.finishRecheck read
    | some status =>
      let (b, s) := s.ask
      if isSettlingState status.state then
        some ⟨s, { read with sawChecking := true }, none⟩
      else if read.sawChecking ∨ s.stalePiecesInRange read.infoHash b read.range = [] ∨
          secs 2 < b.now - read.phaseStart then
        s.finishRecheck read
      else some ⟨s, read, none⟩

def endPeerWait (s : EngineState) (read : PendingRead) : Polled :=
  let (a, s) := s.ask
  if read.infoHash ∈ s.handles then
    match a.status with
    | .error e => ⟨s, read, some (.error (.ffi e))⟩
    | .ok status =>
      let (b, s) := s.ask
      let elapsed := b.now - read.phaseStart
      let isExhausted := swarmIsEmpty status.numPeers status.numSeeds
      let s := { s with
        coldFlights := s.coldFlights.erase read.infoHash
        sourceless := if isExhausted then
          s.sourceless.insert read.infoHash (.new b.now (secs s.peerDiscoveryWindow) elapsed)
          else s.sourceless.erase read.infoHash
        log := s.log ++ if isExhausted then
          [(read.infoHash, SwarmEvent.gaveUp status.numPeers status.numSeeds b.now)] else [] }
      let (s, read) := s.enterPieceWait { read with
        isPeerWaitExhausted := isExhausted
        status := status
        peerWaitElapsed := elapsed }
      ⟨s, read, none⟩
  else ⟨s, read, some (.error .missing)⟩

def probePeers (s : EngineState) (read : PendingRead) : Polled :=
  let (a, s) := s.ask
  if read.infoHash ∈ s.handles then
    match a.status with
    | .error e => ⟨s, read, some (.error (.ffi e))⟩
    | .ok status =>
      let (b, s) := s.ask
      let read := { read with status := status }
      if 0 < status.numPeers ∨ 0 < status.numSeeds then
        let s := { s with
          coldFlights := s.coldFlights.erase read.infoHash
          sourceless := s.sourceless.erase read.infoHash }
        let (s, read) := s.enterPieceWait
          { read with peerWaitElapsed := b.now - read.phaseStart }
        ⟨s, read, none⟩
      else
        match s.coldFlights.get read.infoHash with
        | none => ⟨s, read, none⟩
        | some flight =>
          ⟨{ s with
             coldFlights := s.coldFlights.insert read.infoHash (flight.takeReannounce b.now).2
             log := s.log ++ if (flight.takeReannounce b.now).1 then
               [(read.infoHash, .flightReannounced)] else [] }, read, none⟩
  else ⟨s, read, some (.error .missing)⟩

def pollPeerWait (s : EngineState) (read : PendingRead) : Polled :=
  let (a, s) := s.ask
  if a.stopping then ⟨s, read, some (.error .aborted)⟩
  else if read.phaseDeadline ≤ a.now then s.endPeerWait read
  else s.probePeers read

/-- The part of `poll_piece_wait` that looks for a late seeder: one that has connected restarts
the window. -/
def noteSeeder (s : EngineState) (read : PendingRead) : EngineState × PendingRead :=
  if read.hasSeeder then (s, read)
  else
    let (a, s) := s.ask
    match s.statusOf read.infoHash a with
    | none => (s, read)
    | some status =>
      if 0 < status.numSeeds then
        let (b, s) := s.ask
        (s, { read with hasSeeder := true, pieceWaitStart := b.now, status := status })
      else (s, read)

def awaitPiece (s : EngineState) (read : PendingRead) (piece : ℤ) : Polled :=
  let (s, read) := s.noteSeeder read
  let windowSecs := pieceWaitWindowSecs read.hasSeeder read.isPeerWaitExhausted s.readTimeoutSecs
    s.noSeederReadTimeoutSecs
  let (a, s) := s.ask
  if secs windowSecs ≤ a.now - read.pieceWaitStart then
    let (s, result) := s.readTimedOut read piece windowSecs none
    ⟨s, read, some result⟩
  else ⟨s, read, none⟩

def pollPieces (s : EngineState) (read : PendingRead) : List ℤ → Polled
  | [] =>
    let (s, result) := s.readFromDisk read.infoHash read.range
    ⟨s, read, some result⟩
  | piece :: rest =>
    let (a, s) := s.ask
    let isHeld := decide (read.infoHash ∈ s.handles) && a.havePiece piece
    let stale := isHeld && a.hasStalePiece piece
    if (isHeld && !stale) || a.isPieceComplete piece then
      pollPieces s { read with currentPiece := read.currentPiece + 1 } rest
    else if stale then
      let read := read.recordStalePiece piece
      match s.startRecheck read with
      | (s, some read) => ⟨s, read, none⟩
      -- the recheck did not start: the window decides
      | (s, none) => s.awaitPiece read piece
    else s.awaitPiece read piece

def pollPieceWait (s : EngineState) (read : PendingRead) : Polled :=
  let (a, s) := s.ask
  if a.stopping then ⟨s, read, some (.error .aborted)⟩
  else s.pollPieces read read.remainingPieces

def pollRead (s : EngineState) (read : PendingRead) : Option Polled :=
  if read.infoHash ∈ s.handles then
    match read.phase with
    | .waitState => s.pollWaitState read
    | .recheck => s.pollRecheck read
    | .peerWait => some (s.pollPeerWait read)
    | .pieceWait => some (s.pollPieceWait read)
  else some ⟨s, read, some (.error .missing)⟩

def releaseReader (s : EngineState) (infoHash : Str) (id : ℕ) : Option EngineState :=
  if infoHash ∈ s.handles then
    let (a, s) := s.ask
    (s.scheduler.readerReleased infoHash id a.isPieceComplete).map fun scheduler =>
      { s with scheduler := scheduler }
  else some s

def finishRead (s : EngineState) (read : PendingRead) (result : ReadResult) : Option EngineState :=
  let released := match read.readerId with
    | some id => s.releaseReader read.infoHash id
    | none => some s
  released.map fun s => s.send read.reply result

def pollEach (s : EngineState) (remaining : List PendingRead) :
    List PendingRead → Option EngineState
  | [] => some { s with pendingReads := remaining }
  | read :: rest =>
    (s.pollRead read).bind fun p =>
      match p.result with
      | some result =>
        (p.state.finishRead p.read result).bind fun s => pollEach s remaining rest
      | none => pollEach p.state (remaining ++ [p.read]) rest

def pollPendingReads (s : EngineState) : Option EngineState :=
  { s with pendingReads := [] }.pollEach [] s.pendingReads

def abortPendingReads (s : EngineState) : Option EngineState :=
  s.pendingReads.foldlM (fun s read => s.finishRead read (.error .aborted))
    { s with pendingReads := [] }

/-! ### The loop -/

end EngineState

inductive Command
  | ensureHandle (info : TorrentInfo)
  | ensureHandleAsync (info : TorrentInfo)
  | readFileRange (info : TorrentInfo) (fileIndex : ℤ) (offset size : ℕ)
  | getPiecesStatus (infoHash : Str) (numPieces : ℤ)
  | removeHandle (infoHash : Str)
  | mergeTrackers (info : TorrentInfo)
  | getTrackers (infoHash : Str)
  | shutdown

/-- What `recv_timeout` returns. -/
inductive Received
  | command (c : Command)
  | timeout
  | disconnected

/-- What the outside does in one iteration of the loop: what is received, the piece-finished
events that are queued when they are drained, and the answers to the calls. -/
structure Iteration where
  received : Received
  finished : List (Str × ℤ)
  answers : ℕ → Answers

namespace EngineState

/-- `handle_command`; the flag asks the loop to stop. The commands that only look at the state
and the tracker merge leave everything modelled here as it is; `build_pieces_status` reserves its
result first, and a negative count, cast to `usize`, is a capacity that panics. -/
def handleCommand (s : EngineState) : Command → Option (EngineState × Bool)
  | .ensureHandle info | .ensureHandleAsync info => some ((s.ensureHandle info).1, false)
  | .readFileRange info fileIndex offset size =>
    (s.startRead info fileIndex offset size).map fun s => (s, false)
  | .removeHandle infoHash => some (s.removeHandle infoHash, false)
  | .getPiecesStatus _ numPieces => if numPieces < 0 then none else some (s, false)
  | .mergeTrackers _ | .getTrackers _ => some (s, false)
  | .shutdown => some (s, true)

def drainPieceFinished (s : EngineState) (finished : List (Str × ℤ)) : EngineState :=
  finished.foldl (fun s event => s.pieceReady event.1 event.2) s

def stop (s : EngineState) : Option EngineState :=
  s.abortPendingReads.map fun s => { s with isRunning := false }

def step (s : EngineState) (it : Iteration) : Option EngineState :=
  if s.isRunning then
    let s := { s with outside := it.answers }
    match it.received with
    | .disconnected => s.stop
    | .timeout => (s.drainPieceFinished it.finished).pollPendingReads
    | .command c =>
      (s.handleCommand c).bind fun (s, stops) =>
        if stops then s.stop else (s.drainPieceFinished it.finished).pollPendingReads
  else some s

end EngineState

end TorrentFs.Download
