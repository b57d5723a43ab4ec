import TorrentFs.Download.EngineSteps
import TorrentFs.Lib.Run

/-!
# The acts of the loop

An iteration of the loop is a chain of acts on a ledger: the state, the reads that are parked, and
the number of the read that is being started. The parked reads are kept apart from the state,
because polling takes them out of it and puts those that stay parked back one by one. What every
act keeps, every iteration keeps. Nothing is assumed here of the scheduler or of the outside.
-/

namespace TorrentFs.Download

open Text Word List

namespace ReadPhase

def rank : ReadPhase → ℕ
  | .waitState => 0
  | .recheck => 1
  | .peerWait => 2
  | .pieceWait => 3

end ReadPhase

/-- What a poll can do to the phase of a read. -/
inductive Turn (read read' : PendingRead) : Prop
  /-- The read stays where it is. -/
  | stay (phase : read'.phase = read.phase) (hasSeeder : read'.hasSeeder = read.hasSeeder)
  /-- The read enters a later phase. -/
  | enter (later : read.phase.rank < read'.phase.rank)
  /-- A seeder restarts the piece wait. -/
  | seeder (phase : read.phase = .pieceWait) (phase' : read'.phase = .pieceWait)
      (hasSeeder : read.hasSeeder = false) (hasSeeder' : read'.hasSeeder = true)
  /-- A stale piece sends the read back to a recheck. -/
  | recheck (phase : read.phase = .pieceWait) (phase' : read'.phase = .recheck)

def Command.info? : Command → Option TorrentInfo
  | .ensureHandle info | .ensureHandleAsync info | .readFileRange info _ _ _ => some info
  | _ => none

def Command.isRead : Command → Bool
  | .readFileRange _ _ _ _ => true
  | _ => false

namespace Iteration

def isRead (it : Iteration) : Bool :=
  match it.received with
  | .command c => c.isRead
  | _ => false

/-- The command asks for a handle of the torrent, and the outside can answer with this number of
pieces. -/
def Tells (it : Iteration) (infoHash : Str) (numPieces : ℤ) : Prop :=
  ∃ c info n pieceLength, it.received = .command c ∧ c.info? = some info ∧
    info.infoHash = .ok infoHash ∧ (it.answers n).torrentInfo = .ok (pieceLength, numPieces)

/-- The command is a read of the torrent that `prepared` is filed under. -/
def Asks (it : Iteration) (prepared : PreparedRead) : Prop :=
  ∃ c, it.received = .command c ∧ c.info? = some prepared.info ∧
    prepared.info.infoHash = .ok prepared.infoHash

end Iteration

namespace EngineState

variable {s t u : EngineState} {read read' : PendingRead} {p : Polled} {result : ReadResult}
  {it : Iteration} {parked : List PendingRead} {starting : List ℕ} {info : TorrentInfo}
  {prepared : PreparedRead} {number : ℕ}

/-! ### Turns -/

lemma Stepped.turn (h : Stepped read.phase.next s read p) : Turn read p.read := by
  cases h with
  | stay parts =>
    have hcore : _ = read.core := core_of_parts parts
    exact .stay (congrArg (·.phase) hcore) (congrArg (·.hasSeeder) hcore)
  | @enter b _ _ phase before mem entry =>
    have hphase' := entry.passed.2
    -- only the piece wait can be left for an earlier phase
    cases hphase : read.phase with
    | pieceWait =>
      rw [hphase, ReadPhase.next, mem_singleton] at mem
      exact .recheck hphase (hphase'.trans mem)
    | waitState | recheck | peerWait =>
      rw [hphase] at mem
      refine .enter ?_
      rw [hphase, hphase']
      revert mem
      cases phase <;> decide
  | @seeder u t read₁ read' _ status now before phase hasSeeder after =>
    have hcore : read₁.core = read.core := core_of_parts before
    have hcore' := core_of_parts after
    exact .seeder ((congrArg (·.phase) hcore).symm.trans phase)
      ((congrArg (·.phase) hcore').trans phase)
      ((congrArg (·.hasSeeder) hcore).symm.trans hasSeeder) (congrArg (·.hasSeeder) hcore')

/-! ### The end and the start of a read -/

lemma finishRead_cases (h : s.finishRead read result = some t) :
    ∃ outside scheduler, t =
      { s with outside := outside, scheduler := scheduler }.send read.reply result := by
  obtain ⟨u, hu, rfl⟩ := Option.map_eq_some_iff.mp h
  split at hu
  · unfold releaseReader at hu
    split at hu
    · obtain ⟨scheduler, -, rfl⟩ := Option.map_eq_some_iff.mp hu
      exact ⟨_, scheduler, rfl⟩
    · cases hu
      exact ⟨_, _, rfl⟩
  · cases hu
    exact ⟨_, _, rfl⟩

/-- How the start of a read can end. -/
inductive Begun (s : EngineState) (prepared : PreparedRead) (number : ℕ) : Polled → Prop
  /-- The torrent has not settled: the read waits for that. -/
  | settling (now now' : ℕ) : Begun s prepared number ⟨s.ask.2.ask.2,
      { PendingRead.new prepared number now with phase := .waitState, phaseStart := now' }, none⟩
  | waiting {p : Polled} (now : ℕ)
      (steps : Stepped [.recheck, .peerWait, .pieceWait] s.ask.2 (.new prepared number now) p) :
      Begun s prepared number p

lemma Begun.passed (h : Begun s prepared number p) :
    Frame s p.state ∧ p.read.reply = number ∧ p.read.infoHash = prepared.infoHash := by
  cases h with
  | settling => exact ⟨⟨rfl, rfl, rfl, rfl, rfl, rfl⟩, rfl, rfl⟩
  | waiting now steps =>
    exact ⟨(quiet_ask s).toFrame.trans steps.passed.toFrame, steps.passed.reply,
      steps.passed.infoHash⟩

lemma admitRead_begun (h : s.admitRead prepared number = some t) :
    ∃ p, Begun s prepared number p ∧ ((p.result = none ∧ t = p.state.park p.read) ∨
      ∃ result, p.result = some result ∧ t = p.state.send number result) := by
  unfold admitRead at h
  dsimp only at h
  split at h
  · cases h
    exact ⟨_, .settling _ _, .inl ⟨rfl, rfl⟩⟩
  · obtain ⟨p, hp, rfl⟩ := Option.map_eq_some_iff.mp h
    have hbegun : Begun s prepared number p := .waiting _ (afterSettling_stepped (fun _ => rfl) hp)
    refine ⟨p, hbegun, ?_⟩
    cases hresult : p.result with
    | none => exact .inl ⟨rfl, rfl⟩
    | some result => exact .inr ⟨result, rfl, by rw [hbegun.passed.2.1]⟩

def addHandle (s : EngineState) (infoHash : Str) (pieceLength numPieces : ℤ) : EngineState :=
  { s with
    scheduler := s.scheduler.initTorrent infoHash (wrapI32 numPieces) pieceLength
    sourceless := s.sourceless.erase infoHash
    handles := insert infoHash s.handles
    log := s.log ++ [(infoHash, .handleAdded)] }

lemma ensureHandle_cases (s : EngineState) (info : TorrentInfo) :
    (s.ensureHandle info).1 = s ∨ (s.ensureHandle info).1 = s.ask.2 ∨
      ∃ infoHash pieceLength numPieces, info.infoHash = .ok infoHash ∧ infoHash ∉ s.handles ∧
        s.ask.1.torrentInfo = .ok (pieceLength, numPieces) ∧
        (s.ensureHandle info).1 = s.ask.2.addHandle infoHash pieceLength numPieces := by
  unfold ensureHandle
  split
  · exact .inl rfl
  · next infoHash hhash =>
    split
    · exact .inl rfl
    · next hnew =>
      dsimp only
      split
      · exact .inr (.inl rfl)
      · exact .inr (.inl rfl)
      · exact .inr (.inl rfl)
      · next hinfo => exact .inr (.inr ⟨infoHash, _, _, hhash, hnew, hinfo, rfl⟩)

lemma infoHash_preparedFrom {a : Answers} {infoHash : Str} {fileIndex : ℤ} {offset size : ℕ}
    (h : preparedFrom a info infoHash fileIndex offset size = .ok (some prepared)) :
    prepared.info = info ∧ prepared.infoHash = infoHash := by
  unfold preparedFrom at h
  dsimp only at h
  repeat' split at h
  all_goals first
    | obtain rfl := Option.some.inj (Except.ok.inj h)
      exact ⟨rfl, rfl⟩
    | cases h

lemma prepareRead_cases {fileIndex : ℤ} {offset size : ℕ}
    {answer : Except TorrentError (Option PreparedRead)}
    (h : s.prepareRead info fileIndex offset size = (t, answer)) :
    (t = (s.ensureHandle info).1 ∨ t = (s.ensureHandle info).1.ask.2) ∧
      ∀ prepared, answer = .ok (some prepared) →
        prepared.info = info ∧ info.infoHash = .ok prepared.infoHash ∧
          prepared.infoHash ∈ t.handles := by
  unfold prepareRead at h
  rcases hensured : s.ensureHandle info with ⟨u, _ | _⟩
  · rw [hensured] at h
    cases h
    exact ⟨.inl rfl, fun _ hprepared => nomatch hprepared⟩
  · rw [hensured] at h
    cases hhash : info.infoHash with
    | error e =>
      rw [hhash] at h
      cases h
      exact ⟨.inl rfl, fun _ hprepared => nomatch hprepared⟩
    | ok infoHash =>
      rw [hhash] at h
      dsimp only at h
      split at h
      · next hhandle =>
        cases h
        refine ⟨.inr rfl, fun prepared hprepared => ?_⟩
        obtain ⟨hinfo, rfl⟩ := infoHash_preparedFrom hprepared
        exact ⟨hinfo, rfl, hhandle⟩
      · cases h
        exact ⟨.inl rfl, fun _ hprepared => nomatch hprepared⟩

lemma ensureHandle_kin (s : EngineState) (info : TorrentInfo) :
    (s.ensureHandle info).1.pendingReads = s.pendingReads ∧
      (s.ensureHandle info).1.replies = s.replies ∧ (s.ensureHandle info).1.accepted = s.accepted ∧
      (s.ensureHandle info).1.isRunning = s.isRunning ∧
      (s.ensureHandle info).1.coldFlights = s.coldFlights := by
  obtain heq | heq | ⟨_, _, _, -, -, -, heq⟩ := ensureHandle_cases s info <;>
  · rw [heq]
    exact ⟨rfl, rfl, rfl, rfl, rfl⟩

lemma prepareRead_kin {fileIndex : ℤ} {offset size : ℕ}
    {answer : Except TorrentError (Option PreparedRead)}
    (h : s.prepareRead info fileIndex offset size = (t, answer)) :
    t.pendingReads = s.pendingReads ∧ t.replies = s.replies ∧ t.accepted = s.accepted ∧
      t.isRunning = s.isRunning ∧ t.coldFlights = s.coldFlights := by
  rcases (prepareRead_cases h).1 with rfl | rfl <;> exact ensureHandle_kin s info

/-! ### Acts -/

/-- The state within an iteration. -/
structure Ledger where
  state : EngineState
  /-- The reads that are parked, whatever the state says of them. -/
  parked : List PendingRead
  /-- The number of the read that is being started. -/
  starting : List ℕ

/-- What an iteration is made of. -/
inductive Act (it : Iteration) : Ledger → Ledger → Prop
  | outside (s : EngineState) (parked : List PendingRead) (starting : List ℕ)
      (outside : ℕ → Answers) :
      Act it ⟨s, parked, starting⟩ ⟨{ s with outside := outside }, parked, starting⟩
  /-- Reads are taken out of the state, or put back into it. -/
  | move (s : EngineState) (parked : List PendingRead) (starting : List ℕ)
      (pendingReads : List PendingRead) :
      Act it ⟨s, parked, starting⟩ ⟨{ s with pendingReads := pendingReads }, parked, starting⟩
  | pieceReady (s : EngineState) (parked : List PendingRead) (infoHash : Str) (piece : ℤ) :
      Act it ⟨s, parked, []⟩ ⟨s.pieceReady infoHash piece, parked, []⟩
  | addHandle (s : EngineState) (parked : List PendingRead) (starting : List ℕ) {infoHash : Str}
      (pieceLength : ℤ) {numPieces : ℤ} (new : infoHash ∉ s.handles)
      (tells : it.Tells infoHash numPieces) :
      Act it ⟨s, parked, starting⟩ ⟨s.addHandle infoHash pieceLength numPieces, parked, starting⟩
  | removeHandle (s : EngineState) (parked : List PendingRead) {infoHash : Str}
      (received : it.received = .command (.removeHandle infoHash)) :
      Act it ⟨s, parked, []⟩ ⟨s.removeHandle infoHash, parked, []⟩
  /-- A read gets its number. -/
  | accept (s : EngineState) (parked : List PendingRead) :
      Act it ⟨s, parked, []⟩ ⟨{ s with accepted := s.accepted + 1 }, parked, [s.accepted]⟩
  /-- A read is answered before its first step. -/
  | refuse (s : EngineState) (parked : List PendingRead) (number : ℕ) (result : ReadResult) :
      Act it ⟨s, parked, [number]⟩ ⟨s.send number result, parked, []⟩
  /-- A read is answered in its first step. -/
  | serve {s : EngineState} (parked : List PendingRead) {prepared : PreparedRead} {number : ℕ}
      {p : Polled} {result : ReadResult} (asks : it.Asks prepared)
      (begun : Begun s prepared number p) (ended : p.result = some result) :
      Act it ⟨s, parked, [number]⟩ ⟨p.state.send number result, parked, []⟩
  /-- A read is parked after its first step. -/
  | park {s : EngineState} (parked : List PendingRead) {prepared : PreparedRead} {number : ℕ}
      {p : Polled} (asks : it.Asks prepared) (handle : prepared.infoHash ∈ s.handles)
      (begun : Begun s prepared number p) (stays : p.result = none) :
      Act it ⟨s, parked, [number]⟩ ⟨p.state, parked ++ [p.read], []⟩
  | poll {s : EngineState} (before after : List PendingRead) {read : PendingRead} {p : Polled}
      (polled : s.pollRead read = some p) (stays : p.result = none) :
      Act it ⟨s, before ++ read :: after, []⟩ ⟨p.state, before ++ p.read :: after, []⟩
  | finish {s t : EngineState} (before after : List PendingRead) {read : PendingRead} {p : Polled}
      {result : ReadResult} (polled : s.pollRead read = some p) (ended : p.result = some result)
      (finished : p.state.finishRead p.read result = some t) :
      Act it ⟨s, before ++ read :: after, []⟩ ⟨t, before ++ after, []⟩
  | abort {s t : EngineState} (after : List PendingRead) {read : PendingRead}
      (finished : s.finishRead read (.error .aborted) = some t) :
      Act it ⟨s, read :: after, []⟩ ⟨t, after, []⟩
  | stop (s : EngineState) (parked : List PendingRead) :
      Act it ⟨s, parked, []⟩ ⟨{ s with isRunning := false }, parked, []⟩

abbrev Acts (it : Iteration) := Relation.ReflTransGen (Act it)

def ledger (s : EngineState) : Ledger := ⟨s, s.pendingReads, []⟩

lemma ledger_eq (h : s.pendingReads = parked) : s.ledger = ⟨s, parked, []⟩ := by
  rw [ledger, h]

/-! ### The trace of an iteration -/

lemma acts_drainPieceFinished (it : Iteration) (parked : List PendingRead)
    (finished : List (Str × ℤ)) (s : EngineState) :
    Acts it ⟨s, parked, []⟩ ⟨s.drainPieceFinished finished, parked, []⟩ ∧
      Quiet s (s.drainPieceFinished finished) := by
  induction finished generalizing s with
  | nil => exact ⟨.refl, .refl s⟩
  | cons event finished ih =>
    obtain ⟨hacts, hquiet⟩ := ih (s.pieceReady event.1 event.2)
    exact ⟨.head (.pieceReady s parked event.1 event.2) hacts,
      (quiet_pieceReady s event.1 event.2).trans hquiet⟩

lemma acts_pollEach (it : Iteration) (rest : List PendingRead) :
    ∀ {s : EngineState} {remaining : List PendingRead}, s.pollEach remaining rest = some t →
      Acts it ⟨s, remaining ++ rest, []⟩ t.ledger ∧ t.accepted = s.accepted ∧
        t.isRunning = s.isRunning ∧ t.handles = s.handles ∧
        ((∀ read ∈ remaining, read.infoHash ∈ s.handles) →
          ∀ read ∈ t.pendingReads, read.infoHash ∈ s.handles) := by
  induction rest with
  | nil =>
    intro s remaining h
    cases h
    rw [append_nil]
    exact ⟨.single (.move s remaining [] remaining), rfl, rfl, rfl, fun hhandles => hhandles⟩
  | cons read rest ih =>
    intro s remaining h
    obtain ⟨p, hp, h⟩ := Option.bind_eq_some_iff.mp h
    have hpassed := (pollRead_stepped hp).passed
    cases hresult : p.result with
    | some result =>
      rw [hresult] at h
      obtain ⟨u, hu, h⟩ := Option.bind_eq_some_iff.mp h
      obtain ⟨hacts, haccepted, hon, hsame, hhandles⟩ := ih h
      obtain ⟨outside, scheduler, rfl⟩ := finishRead_cases hu
      exact ⟨.head (.finish remaining rest hp hresult hu) hacts,
        haccepted.trans hpassed.accepted, hon.trans hpassed.isRunning,
        hsame.trans hpassed.handles, hpassed.handles ▸ hhandles⟩
    | none =>
      rw [hresult] at h
      obtain ⟨hacts, haccepted, hon, hsame, hhandles⟩ := ih h
      rw [append_assoc] at hacts
      refine ⟨.head (.poll remaining rest hp hresult) hacts, haccepted.trans hpassed.accepted,
        hon.trans hpassed.isRunning, hsame.trans hpassed.handles, fun hr => ?_⟩
      rw [hpassed.handles] at hhandles
      refine hhandles (List.forall_mem_append.mpr ⟨hr, List.forall_mem_singleton.mpr ?_⟩)
      rw [hpassed.infoHash]
      exact handle_of_pollRead hp hresult

lemma acts_poll (it : Iteration)
    (hpoll : (s.drainPieceFinished it.finished).pollPendingReads = some t) :
    Acts it s.ledger t.ledger ∧ t.accepted = s.accepted ∧ t.isRunning = s.isRunning ∧
      t.handles = s.handles ∧ ∀ read ∈ t.pendingReads, read.infoHash ∈ t.handles := by
  obtain ⟨hdrain, hquiet⟩ := acts_drainPieceFinished it s.pendingReads it.finished s
  obtain ⟨hacts, haccepted, hon, hsame, hhandles⟩ := acts_pollEach it _ hpoll
  refine ⟨(hdrain.tail (.move _ _ _ [])).trans ?_, haccepted.trans hquiet.accepted,
    hon.trans hquiet.isRunning, hsame.trans hquiet.handles,
    hsame ▸ hhandles (forall_mem_nil _)⟩
  rw [← hquiet.pendingReads]
  exact hacts

lemma acts_abort (it : Iteration) (parked : List PendingRead) : ∀ {s : EngineState},
      parked.foldlM (fun s read => s.finishRead read (.error .aborted)) s = some t →
      Acts it ⟨s, parked, []⟩ ⟨t, [], []⟩ ∧ t.pendingReads = s.pendingReads ∧
        t.accepted = s.accepted := by
  induction parked with
  | nil =>
    intro s h
    cases h
    exact ⟨.refl, rfl, rfl⟩
  | cons read parked ih =>
    intro s h
    obtain ⟨u, hu, h⟩ := Option.bind_eq_some_iff.mp h
    obtain ⟨hacts, hsame⟩ := ih h
    obtain ⟨outside, scheduler, rfl⟩ := finishRead_cases hu
    exact ⟨.head (.abort parked hu) hacts, hsame⟩

lemma acts_stop (it : Iteration) (h : s.stop = some t) :
    Acts it s.ledger t.ledger ∧ t.pendingReads = [] ∧ t.accepted = s.accepted ∧
      t.isRunning = false := by
  obtain ⟨u, hu, rfl⟩ := Option.map_eq_some_iff.mp h
  obtain ⟨hacts, hpending, haccepted⟩ := acts_abort it s.pendingReads hu
  have hnil : u.pendingReads = [] := hpending
  refine ⟨.head (.move s _ _ []) ?_, hnil, haccepted, rfl⟩
  rw [ledger_eq (s := { u with isRunning := false }) hnil]
  exact hacts.tail (.stop u [])

lemma acts_ensureHandle {c : Command} (hreceived : it.received = .command c)
    (hinfo : c.info? = some info) {n : ℕ} (hanswer : s.ask.1 = it.answers n) :
    Acts it ⟨s, parked, starting⟩ ⟨(s.ensureHandle info).1, parked, starting⟩ := by
  obtain heq | heq | ⟨infoHash, pieceLength, numPieces, hhash, hnew, htold, heq⟩ :=
    ensureHandle_cases s info
  · rw [heq]
  · rw [heq]
    exact .single (.outside s parked starting _)
  · rw [heq]
    refine .head (.outside s parked starting _) (.single (.addHandle _ parked starting _ hnew ?_))
    exact ⟨c, info, n, pieceLength, hreceived, hinfo, hhash, hanswer ▸ htold⟩

lemma acts_prepareRead {fileIndex : ℤ} {offset size : ℕ}
    (hreceived : it.received = .command (.readFileRange info fileIndex offset size))
    (houtside : s.outside = it.answers) {answer : Except TorrentError (Option PreparedRead)}
    (h : (ask { s with accepted := s.accepted + 1 }).2.prepareRead info fileIndex offset size =
      (t, answer)) :
    Acts it s.ledger ⟨t, t.pendingReads, [s.accepted]⟩ ∧ t.accepted = s.accepted + 1 ∧
      t.isRunning = s.isRunning ∧ ∀ prepared, answer = .ok (some prepared) →
        it.Asks prepared ∧ prepared.infoHash ∈ t.handles := by
  obtain ⟨ht, hasks⟩ := prepareRead_cases h
  obtain ⟨hpending, -, haccepted, hon, -⟩ := prepareRead_kin h
  refine ⟨?_, haccepted, hon, fun prepared hprepared => ?_⟩
  · have hensured : Acts it s.ledger
        ⟨((ask { s with accepted := s.accepted + 1 }).2.ensureHandle info).1, s.pendingReads,
          [s.accepted]⟩ :=
      .head (.accept s s.pendingReads) (.head (.outside _ _ _ _)
        (acts_ensureHandle hreceived rfl (congrFun houtside 1)))
    rw [show t.pendingReads = s.pendingReads from hpending]
    rcases ht with rfl | rfl
    · exact hensured
    · exact hensured.tail (.outside _ _ _ _)
  · obtain ⟨hsame, hhash, hhandle⟩ := hasks prepared hprepared
    exact ⟨⟨_, hreceived, by rw [hsame]; rfl, hsame ▸ hhash⟩, hhandle⟩

lemma acts_startRead {fileIndex : ℤ} {offset size : ℕ}
    (hreceived : it.received = .command (.readFileRange info fileIndex offset size))
    (houtside : s.outside = it.answers) (h : s.startRead info fileIndex offset size = some t) :
    Acts it s.ledger t.ledger ∧ t.accepted = s.accepted + 1 ∧ t.isRunning = s.isRunning := by
  unfold startRead at h
  dsimp only at h
  split at h
  · cases h
    exact ⟨.head (.accept s s.pendingReads) (.head (.outside _ _ _ _) (.single (.refuse _ _ _ _))),
      rfl, rfl⟩
  · rcases hprepare : (ask { s with accepted := s.accepted + 1 }).2.prepareRead info fileIndex
      offset size with ⟨u, answer⟩
    obtain ⟨hacts, haccepted, hon, hasks⟩ := acts_prepareRead hreceived houtside hprepare
    rw [hprepare] at h
    rcases answer with e | _ | prepared
    · cases h
      exact ⟨hacts.tail (.refuse u _ _ _), haccepted, hon⟩
    · cases h
      exact ⟨hacts.tail (.refuse u _ _ _), haccepted, hon⟩
    · obtain ⟨hasked, hhandle⟩ := hasks prepared rfl
      have hadmit : u.admitRead prepared s.accepted = some t := h
      obtain ⟨p, hbegun, hended⟩ := admitRead_begun hadmit
      have hframe := hbegun.passed.1
      rcases hended with ⟨hstays, rfl⟩ | ⟨result, hended, rfl⟩
      · refine ⟨(hacts.tail (.park _ hasked hhandle hbegun hstays)).tail ?_,
          hframe.accepted.trans haccepted, hframe.isRunning.trans hon⟩
        rw [← hframe.pendingReads]
        exact .move _ _ _ _
      · have hserved := hacts.tail (.serve _ hasked hbegun hended)
        rw [← hframe.pendingReads] at hserved
        exact ⟨hserved, hframe.accepted.trans haccepted, hframe.isRunning.trans hon⟩

lemma acts_handleCommand {c : Command} {stops : Bool} (hreceived : it.received = .command c)
    (houtside : s.outside = it.answers) (h : s.handleCommand c = some (t, stops)) :
    Acts it s.ledger t.ledger ∧ t.accepted = s.accepted + (if c.isRead then 1 else 0) ∧
      t.isRunning = s.isRunning := by
  cases c with
  | ensureHandle info | ensureHandleAsync info =>
    obtain ⟨rfl, -⟩ := Prod.mk.inj (Option.some.inj h)
    obtain ⟨hpending, -, haccepted, hon, -⟩ := ensureHandle_kin s info
    rw [ledger_eq hpending]
    exact ⟨acts_ensureHandle hreceived rfl (congrFun houtside 0), haccepted, hon⟩
  | readFileRange info fileIndex offset size =>
    obtain ⟨u, hu, heq⟩ := Option.map_eq_some_iff.mp h
    obtain ⟨rfl, -⟩ := Prod.mk.inj heq
    exact acts_startRead hreceived houtside hu
  | removeHandle infoHash =>
    obtain ⟨rfl, -⟩ := Prod.mk.inj (Option.some.inj h)
    exact ⟨.single (.removeHandle s s.pendingReads hreceived), rfl, rfl⟩
  | getPiecesStatus infoHash numPieces =>
    obtain ⟨-, heq⟩ := Option.ite_none_left_eq_some.mp h
    obtain ⟨rfl, -⟩ := Prod.mk.inj (Option.some.inj heq)
    exact ⟨.refl, rfl, rfl⟩
  | mergeTrackers | getTrackers | shutdown =>
    obtain ⟨rfl, -⟩ := Prod.mk.inj (Option.some.inj h)
    exact ⟨.refl, rfl, rfl⟩

/-- The trace of an iteration that begins with a running loop. After it each parked read has a
handle, and none is parked once the loop has ended. -/
structure Traced (it : Iteration) (s t : EngineState) : Prop where
  acts : Acts it s.ledger t.ledger
  accepted_le : t.accepted ≤ s.accepted + if it.isRead then 1 else 0
  accepted : t.isRunning = true → t.accepted = s.accepted + if it.isRead then 1 else 0
  handles : ∀ read ∈ t.pendingReads, read.infoHash ∈ t.handles
  stopped : t.isRunning = false → t.pendingReads = []

lemma traced_stop (hacts : Acts it s.ledger u.ledger)
    (haccepted : u.accepted ≤ s.accepted + if it.isRead then 1 else 0) (h : u.stop = some t) :
    Traced it s t := by
  obtain ⟨hstop, hnil, hsame, hoff⟩ := acts_stop it h
  refine ⟨hacts.trans hstop, hsame ▸ haccepted, fun hon => ?_, ?_, fun _ => hnil⟩
  · rw [hoff] at hon
    cases hon
  · rw [hnil]
    exact forall_mem_nil _

lemma traced_poll (hacts : Acts it s.ledger u.ledger) (hon : u.isRunning = true)
    (haccepted : u.accepted = s.accepted + if it.isRead then 1 else 0)
    (h : (u.drainPieceFinished it.finished).pollPendingReads = some t) : Traced it s t := by
  obtain ⟨hpoll, hsame, hon', -, hhandles⟩ := acts_poll it h
  refine ⟨hacts.trans hpoll, (hsame.trans haccepted).le, fun _ => hsame.trans haccepted, hhandles,
    fun hoff => ?_⟩
  rw [hon', hon] at hoff
  cases hoff

lemma traced_of_step (hrunning : s.isRunning = true) (h : s.step it = some t) : Traced it s t := by
  rw [step, if_pos hrunning] at h
  have hasked : Acts it s.ledger (ledger { s with outside := it.answers }) :=
    .single (.outside s _ _ it.answers)
  dsimp only at h
  split at h
  · exact traced_stop hasked (Nat.le_add_right _ _) h
  · next hreceived =>
    have hnot : it.isRead = false := by simp [Iteration.isRead, hreceived]
    exact traced_poll hasked hrunning (by simp [hnot]) h
  · next c hreceived =>
    obtain ⟨⟨u, stops⟩, hu, h⟩ := Option.bind_eq_some_iff.mp h
    obtain ⟨hacts, haccepted, hon⟩ := acts_handleCommand hreceived rfl hu
    have hread : it.isRead = c.isRead := by simp [Iteration.isRead, hreceived]
    rw [← hread] at haccepted
    split at h
    · exact traced_stop (hasked.trans hacts) haccepted.le h
    · exact traced_poll (hasked.trans hacts) (hon.trans hrunning) haccepted h

lemma invariant_of_acts {Inv : Ledger → Prop}
    (hact : ∀ {l l'}, Act it l l' → Inv l → Inv l') {l l' : Ledger} (h : Acts it l l')
    (hl : Inv l) : Inv l' := by
  induction h with
  | refl => exact hl
  | tail _ act ih => exact hact act ih

lemma invariant_of_step {Inv : Ledger → Prop}
    (hact : ∀ {l l'}, Act it l l' → Inv l → Inv l') (hs : Inv s.ledger)
    (h : s.step it = some t) : Inv t.ledger := by
  by_cases hrunning : s.isRunning = true
  · exact invariant_of_acts hact (traced_of_step hrunning h).acts hs
  · rw [step, if_neg hrunning] at h
    cases h
    exact hs

lemma invariant_of_loop {Inv : Ledger → Prop}
    (hact : ∀ {it l l'}, Act it l l' → Inv l → Inv l') (hs : Inv s.ledger) {its : List Iteration}
    (hrun : Run.runFrom step s its = some t) : Inv t.ledger :=
  Run.invariant_of_run (fun _ _ _ hu hstep => invariant_of_step hact hu hstep) hs hrun

/-! ### Replies and parked reads -/

/-- Each read that was accepted has one reply or one place in the ledger. -/
def Counted (l : Ledger) : Prop :=
  (l.state.replies.map Prod.fst ++ l.parked.map PendingRead.reply ++ l.starting).Perm
    (List.range l.state.accepted)

lemma Frame.counted (h : Frame s t) (hs : Counted ⟨s, parked, starting⟩) :
    Counted ⟨t, parked, starting⟩ := by
  unfold Counted
  rw [h.replies, h.accepted]
  exact hs

lemma Counted.send (before : List PendingRead) {after : List PendingRead} (result : ReadResult)
    (h : Counted ⟨s, before ++ read :: after, starting⟩) :
    Counted ⟨s.send read.reply result, before ++ after, starting⟩ := by
  unfold Counted EngineState.send at *
  refine List.Perm.trans ?_ h
  simp only [map_append, map_cons, map_nil, append_assoc, cons_append,
    nil_append]
  exact List.perm_middle.symm.append_left _

lemma Counted.refuse (result : ReadResult) (h : Counted ⟨s, parked, [number]⟩) :
    Counted ⟨s.send number result, parked, []⟩ := by
  unfold Counted EngineState.send at *
  refine List.Perm.trans ?_ h
  simp only [map_append, map_cons, map_nil, append_assoc, append_nil]
  exact List.perm_append_comm.append_left _

lemma Act.counted {l l' : Ledger} (h : Act it l l') (hl : Counted l) : Counted l' := by
  cases h with
  | outside | move | addHandle | removeHandle | stop => exact hl
  | pieceReady s parked infoHash piece => exact (quiet_pieceReady s infoHash piece).counted hl
  | accept s parked =>
    change (_ ++ [s.accepted]).Perm (List.range (s.accepted + 1))
    rw [range_succ]
    exact List.Perm.append_right _ (by simpa [Counted] using hl)
  | refuse s parked number result => exact hl.refuse result
  | serve parked asks begun ended => exact (begun.passed.1.counted hl).refuse _
  | park parked asks handle begun stays =>
    obtain ⟨hframe, hreply, -⟩ := begun.passed
    have hcounted := hframe.counted hl
    unfold Counted at hcounted ⊢
    simpa [hreply] using hcounted
  | poll before after polled stays =>
    have hpassed := (pollRead_stepped polled).passed
    have hcounted := hpassed.counted hl
    unfold Counted at hcounted ⊢
    simpa [hpassed.reply] using hcounted
  | finish before after polled ended finished =>
    have hpassed := (pollRead_stepped polled).passed
    obtain ⟨outside, scheduler, rfl⟩ := finishRead_cases finished
    rw [hpassed.reply]
    exact (hpassed.counted hl).send before _
  | abort after finished =>
    obtain ⟨outside, scheduler, rfl⟩ := finishRead_cases finished
    exact Counted.send [] _ hl

lemma Act.grows {l l' : Ledger} (h : Act it l l') : l'.state.timeouts = l.state.timeouts ∧
    l.state.accepted ≤ l'.state.accepted ∧ l.state.replies <+: l'.state.replies := by
  have hframe : ∀ {s t : EngineState}, Frame s t → ∀ replies, t.timeouts = s.timeouts ∧
      s.accepted ≤ t.accepted ∧ s.replies <+: t.replies ++ replies := by
    intro s t h replies
    exact ⟨h.timeouts, h.accepted.ge, h.replies ▸ prefix_append _ _⟩
  cases h with
  | outside | move | addHandle | removeHandle | stop => exact ⟨rfl, le_rfl, prefix_refl _⟩
  | pieceReady s _ infoHash piece =>
    simpa using hframe (quiet_pieceReady s infoHash piece).toFrame []
  | accept => exact ⟨rfl, Nat.le_succ _, prefix_refl _⟩
  | refuse => exact ⟨rfl, le_rfl, prefix_append _ _⟩
  | serve _ _ begun => exact hframe begun.passed.1 _
  | park _ _ _ begun => simpa using hframe begun.passed.1 []
  | poll _ _ polled => simpa using hframe (pollRead_stepped polled).passed.toFrame []
  | finish _ _ polled _ finished =>
    obtain ⟨outside, scheduler, rfl⟩ := finishRead_cases finished
    exact hframe (pollRead_stepped polled).passed.toFrame _
  | abort _ finished =>
    obtain ⟨outside, scheduler, rfl⟩ := finishRead_cases finished
    exact ⟨rfl, le_rfl, prefix_append _ _⟩

lemma replies_of_acts {l l' : Ledger} (h : Acts it l l') :
    l.state.replies <+: l'.state.replies := by
  induction h with
  | refl => exact prefix_refl _
  | tail _ act ih => exact ih.trans act.grows.2.2

/-! ### The polls of an iteration -/

/-- A poll: the state it finds, the other reads that are parked then, and the read. -/
structure Poll where
  state : EngineState
  others : List PendingRead
  read : PendingRead

/-- The polls of `pollEach`, in their order. -/
def pollsFrom (s : EngineState) (remaining : List PendingRead) : List PendingRead → List Poll
  | [] => []
  | read :: rest =>
    ⟨s, remaining ++ rest, read⟩ :: (s.pollRead read).elim [] fun p =>
      match p.result with
      | some result =>
        (p.state.finishRead p.read result).elim [] fun s => pollsFrom s remaining rest
      | none => pollsFrom p.state (remaining ++ [p.read]) rest

/-- What the polls of a pass keep holds after it. `P` is about the reads that have been polled and
those that have not. -/
lemma invariant_of_pass {Q : Poll → Prop}
    {P : EngineState → List PendingRead → List PendingRead → Prop}
    (hparks : ∀ {s remaining read rest p}, Q ⟨s, remaining ++ rest, read⟩ →
      s.pollRead read = some p → p.result = none → P s remaining (read :: rest) →
      P p.state (remaining ++ [p.read]) rest)
    (hends : ∀ {s remaining read rest p outside scheduler reply result},
      Q ⟨s, remaining ++ rest, read⟩ → s.pollRead read = some p → P s remaining (read :: rest) →
      P ({ p.state with outside := outside, scheduler := scheduler }.send reply result)
        remaining rest)
    (hmove : ∀ {s remaining},
      P s remaining [] → P { s with pendingReads := remaining } remaining [])
    (rest : List PendingRead) : ∀ {s : EngineState} {remaining : List PendingRead},
      s.pollEach remaining rest = some t → (∀ poll ∈ s.pollsFrom remaining rest, Q poll) →
      P s remaining rest → P t t.pendingReads [] := by
  induction rest with
  | nil =>
    intro s remaining h _ hP
    cases h
    exact hmove hP
  | cons read rest ih =>
    intro s remaining h hQ hP
    obtain ⟨hread, hQ⟩ := List.forall_mem_cons.mp hQ
    obtain ⟨p, hp, h⟩ := Option.bind_eq_some_iff.mp h
    rw [hp, Option.elim_some] at hQ
    cases hresult : p.result with
    | some result =>
      rw [hresult] at h hQ
      obtain ⟨u, hu, h⟩ := Option.bind_eq_some_iff.mp h
      dsimp only at hQ
      rw [hu, Option.elim_some] at hQ
      obtain ⟨outside, scheduler, rfl⟩ := finishRead_cases hu
      exact ih h hQ (hends hread hp hP)
    | none =>
      rw [hresult] at h hQ
      exact ih h hQ (hparks hread hp hresult hP)

/-- The state in which an iteration polls the parked reads, unless it ends the loop. -/
def opened (s : EngineState) (it : Iteration) : Option EngineState :=
  let s := { s with outside := it.answers }
  let handled := match it.received with
    | .disconnected => none
    | .timeout => some s
    | .command c => (s.handleCommand c).bind fun (s, stops) => if stops then none else some s
  handled.map (·.drainPieceFinished it.finished)

def polls (s : EngineState) (it : Iteration) : List Poll :=
  (s.opened it).elim [] fun s => { s with pendingReads := [] }.pollsFrom [] s.pendingReads

lemma opened_of_step (hrunning : s.isRunning = true) (h : s.step it = some t) :
    (∃ u, s.opened it = some u ∧ u.pollPendingReads = some t) ∨ t.pendingReads = [] := by
  rw [step, if_pos hrunning] at h
  unfold opened
  cases hreceived : it.received with
  | disconnected =>
    rw [hreceived] at h
    exact .inr (acts_stop it h).2.1
  | timeout =>
    rw [hreceived] at h
    exact .inl ⟨_, rfl, h⟩
  | command c =>
    rw [hreceived] at h
    obtain ⟨⟨u, stops⟩, hu, h⟩ := Option.bind_eq_some_iff.mp h
    cases stops with
    | true => exact .inr (acts_stop it h).2.1
    | false => exact .inl ⟨_, by dsimp only; rw [hu]; rfl, h⟩

lemma coldFlights_drainPieceFinished (finished : List (Str × ℤ)) (s : EngineState) :
    (s.drainPieceFinished finished).coldFlights = s.coldFlights := by
  induction finished generalizing s with
  | nil => rfl
  | cons event finished ih =>
    refine (ih (s.pieceReady event.1 event.2)).trans ?_
    unfold pieceReady
    split <;> rfl

/-- What the command of an iteration does to the parked reads and the flights. -/
inductive Opening (it : Iteration) (s : EngineState) : EngineState → Prop
  | same {u : EngineState} (pendingReads : u.pendingReads = s.pendingReads)
      (coldFlights : ∀ k, it.received ≠ .command (.removeHandle k) →
        u.coldFlights.get k = s.coldFlights.get k) : Opening it s u
  /-- A read has taken its first step. -/
  | begun {u v : EngineState} {prepared : PreparedRead} {p : Polled}
      (flights : v.coldFlights = s.coldFlights) (asks : it.Asks prepared)
      (answers : ∀ n, ∃ m, v.outside n = it.answers m) (begun : Begun v prepared s.accepted p)
      (coldFlights : u.coldFlights = p.state.coldFlights)
      (parked : u.pendingReads ⊆ p.read :: s.pendingReads) : Opening it s u

lemma Opening.drain (h : Opening it s u) (finished : List (Str × ℤ)) :
    Opening it s (u.drainPieceFinished finished) := by
  have hpending := (acts_drainPieceFinished it [] finished u).2.pendingReads
  have hflights := coldFlights_drainPieceFinished finished u
  cases h with
  | same pendingReads coldFlights =>
    exact .same (hpending.trans pendingReads) (by rwa [hflights])
  | begun flights asks answers begun coldFlights parked =>
    exact .begun flights asks answers begun (hflights.trans coldFlights) (hpending ▸ parked)

lemma opening_startRead {fileIndex : ℤ} {offset size : ℕ}
    (hreceived : it.received = .command (.readFileRange info fileIndex offset size))
    (h : { s with outside := it.answers }.startRead info fileIndex offset size = some u) :
    Opening it s u := by
  unfold startRead at h
  dsimp only at h
  split at h
  · cases h
    exact .same rfl fun _ _ => rfl
  · rcases hprepare :
        (ask { s with outside := it.answers, accepted := s.accepted + 1 }).2.prepareRead
      info fileIndex offset size with ⟨v, answer⟩
    obtain ⟨hpending, -, -, -, hflights⟩ := prepareRead_kin hprepare
    rw [hprepare] at h
    rcases answer with e | _ | prepared
    · cases h
      exact .same hpending fun k _ => congrArg (·.get k) hflights
    · cases h
      exact .same hpending fun k _ => congrArg (·.get k) hflights
    · obtain ⟨hv, hprepared⟩ := prepareRead_cases hprepare
      obtain ⟨hinfo, hhash, -⟩ := hprepared prepared rfl
      have hasks : it.Asks prepared := ⟨_, hreceived, hinfo ▸ rfl, hinfo ▸ hhash⟩
      have hanswers : ∀ n, ∃ m, v.outside n = it.answers m := by
        obtain heq | heq | ⟨_, _, _, -, -, -, heq⟩ := ensureHandle_cases
          (ask { s with outside := it.answers, accepted := s.accepted + 1 }).2 info
        all_goals
          rw [heq] at hv
          rcases hv with rfl | rfl <;> exact fun n => ⟨_, rfl⟩
      obtain ⟨p, hbegun, hended⟩ := admitRead_begun h
      have hsame : p.state.pendingReads = s.pendingReads :=
        hbegun.passed.1.pendingReads.trans hpending
      rcases hended with ⟨-, rfl⟩ | ⟨result, -, rfl⟩
      · refine .begun hflights hasks hanswers hbegun rfl ?_
        change p.state.pendingReads ++ [p.read] ⊆ _
        simp [hsame]
      · exact .begun hflights hasks hanswers hbegun rfl (hsame ▸ List.subset_cons_self _ _)

lemma opening_of_opened (h : s.opened it = some u) : Opening it s u := by
  obtain ⟨v, hv, rfl⟩ := Option.map_eq_some_iff.mp h
  refine Opening.drain ?_ it.finished
  dsimp only at hv
  split at hv
  · cases hv
  · cases hv
    exact .same rfl fun _ _ => rfl
  · next c hreceived =>
    obtain ⟨⟨w, stops⟩, hw, hv⟩ := Option.bind_eq_some_iff.mp hv
    obtain ⟨-, hv⟩ := Option.ite_none_left_eq_some.mp hv
    obtain rfl := Option.some.inj hv
    cases c with
    | readFileRange info fileIndex offset size =>
      obtain ⟨u, hu, heq⟩ := Option.map_eq_some_iff.mp hw
      obtain ⟨rfl, -⟩ := Prod.mk.inj heq
      exact opening_startRead hreceived hu
    | ensureHandle info | ensureHandleAsync info =>
      obtain ⟨rfl, -⟩ := Prod.mk.inj (Option.some.inj hw)
      obtain ⟨hpending, -, -, -, hflights⟩ := ensureHandle_kin { s with outside := it.answers } info
      exact .same hpending fun k _ => congrArg (·.get k) hflights
    | removeHandle infoHash =>
      obtain ⟨rfl, -⟩ := Prod.mk.inj (Option.some.inj hw)
      refine .same rfl fun k hk => ?_
      have hne : k ≠ infoHash := fun heq => hk (heq ▸ hreceived)
      simp [EngineState.removeHandle, hne]
    | getPiecesStatus infoHash numPieces =>
      obtain ⟨-, heq⟩ := Option.ite_none_left_eq_some.mp hw
      obtain ⟨rfl, -⟩ := Prod.mk.inj (Option.some.inj heq)
      exact .same rfl fun _ _ => rfl
    | mergeTrackers | getTrackers | shutdown =>
      obtain ⟨rfl, -⟩ := Prod.mk.inj (Option.some.inj hw)
      exact .same rfl fun _ _ => rfl

end EngineState

end TorrentFs.Download
