import TorrentFs.Download.EngineReads
import TorrentFs.Download.Swarm

/-!
# Peer discovery in runs of the engine

A read that finds an empty swarm waits for a peer, attached to the cold flight of its torrent. The
read that sees a peer first, or whose window has elapsed, removes the flight. The polls of the other
reads ask for the status and the clock again: when the answer differs, a read goes on waiting and
its flight is gone.

A verdict of a probe that has given up ends later reads early. It is applied only on a fresh status
that shows nobody, and only for one window.
-/

namespace TorrentFs.Download

open Text Word Swarm List Bool FinMap

namespace EngineState

/-! ### Flights -/

def waitingFor (s : EngineState) (infoHash : Str) : List PendingRead :=
  s.pendingReads.filter fun read => read.infoHash = infoHash ∧ read.phase = .peerWait

/-- The start and the deadline of the flight of a torrent. -/
def flightTimes (s : EngineState) (infoHash : Str) : Option (ℕ × ℕ) :=
  (s.coldFlights.get infoHash).map fun flight => (flight.started, flight.deadline)

/-- Every read that waits for a peer of the torrent is attached to its flight. -/
def Attached (s : EngineState) (infoHash : Str) (parked : List PendingRead) : Prop :=
  ∀ read ∈ parked, read.infoHash = infoHash → read.phase = .peerWait →
    s.flightTimes infoHash = some (read.phaseStart, read.phaseDeadline)

/-- The answers that a poll of a read in the peer wait gets end the wait: the window is over, the
status shows somebody, or there is no status. -/
def endsWait (outside : ℕ → Answers) (read : PendingRead) : Bool :=
  read.phaseDeadline ≤ (outside 0).now ||
    match (outside 1).status with
    | .ok status => 0 < status.numPeers || 0 < status.numSeeds
    | .error _ => true

/-- A read that begins to wait for a peer of the torrent will not find its flight expired, or no
other read waits. -/
def MayEnter (s : EngineState) (infoHash : Str) (others : List PendingRead) : Prop :=
  (∀ read ∈ others, read.infoHash = infoHash → read.phase ≠ .peerWait) ∨
    ∀ times ∈ s.flightTimes infoHash, ∀ n, (s.outside n).now < times.2

/-- The poll of a read of the torrent finds it in the peer wait and ends that, or finds it
behind. -/
def Leaves (infoHash : Str) (poll : Poll) : Prop :=
  poll.read.infoHash = infoHash → poll.read.phase = .pieceWait ∨
    poll.read.phase = .peerWait ∧ endsWait poll.state.outside poll.read = true

/-- The poll of a read of the torrent does not end a peer wait, and may begin one. -/
def Stays (infoHash : Str) (poll : Poll) : Prop :=
  poll.read.infoHash = infoHash →
    match poll.read.phase with
    | .waitState | .recheck => poll.state.MayEnter infoHash poll.others
    | .peerWait => endsWait poll.state.outside poll.read = false
    | .pieceWait => True

/-- An iteration in which the reads that wait for a peer of one torrent get answers that agree: they
all go on and none comes, or they all stay, and one that comes finds the flight of the others. -/
def Steady (s : EngineState) (it : Iteration) : Prop :=
  ∀ k, (∀ poll ∈ s.polls it, Leaves k poll) ∨
    (∀ prepared, it.Asks prepared → prepared.infoHash = k →
      MayEnter { s with outside := it.answers } k s.pendingReads) ∧
    ∀ poll ∈ s.polls it, Stays k poll

variable {s t u : EngineState} {it : Iteration} {k : Str} {read read' : PendingRead} {p : Polled}
  {phases : List ReadPhase} {others : List PendingRead}

lemma takeReannounce_times (flight : ColdFlight) (now : ℕ) :
    (flight.takeReannounce now).2.started = flight.started ∧
      (flight.takeReannounce now).2.deadline = flight.deadline := by
  unfold ColdFlight.takeReannounce
  split <;> exact ⟨rfl, rfl⟩

lemma Part.flights {a b : EngineState × PendingRead} (h : Part a b) :
    b.1.flightTimes = a.1.flightTimes ∧ ∀ n, ∃ m, b.1.outside n = a.1.outside m := by
  cases h with
  | ask | note | markDirty | recompute | dropVerdict | applyVerdict =>
    exact ⟨rfl, fun n => ⟨_, rfl⟩⟩
  | pieceReady =>
    unfold EngineState.pieceReady
    split <;> exact ⟨rfl, fun n => ⟨n, rfl⟩⟩
  | @reannounce s read flight now found =>
    refine ⟨funext fun k => ?_, fun n => ⟨n, rfl⟩⟩
    obtain ⟨hstarted, hdeadline⟩ := takeReannounce_times flight now
    unfold flightTimes
    by_cases hk : k = read.infoHash
    · rw [hk, get_insert_self, found, Option.map_some, Option.map_some, hstarted, hdeadline]
    · simp [hk]

lemma flights_of_parts {a b : EngineState × PendingRead} (h : Parts a b) :
    b.1.flightTimes = a.1.flightTimes ∧ ∀ n, ∃ m, b.1.outside n = a.1.outside m := by
  induction h with
  | refl => exact ⟨rfl, fun n => ⟨n, rfl⟩⟩
  | tail _ part ih =>
    refine ⟨part.flights.1.trans ih.1, fun n => ?_⟩
    obtain ⟨m, hm⟩ := part.flights.2 n
    obtain ⟨m', hm'⟩ := ih.2 m
    exact ⟨m', hm.trans hm'⟩

/-- A read that enters the peer wait is attached to the flight: the one that was there, or a new one
in the place of one that has expired. -/
structure Enters (s : EngineState) (read : PendingRead) (t : EngineState) (read' : PendingRead) :
    Prop where
  attached : t.flightTimes read.infoHash = some (read'.phaseStart, read'.phaseDeadline)
  joins : t.flightTimes read.infoHash = s.flightTimes read.infoHash ∨
    ∀ times ∈ s.flightTimes read.infoHash, times.2 ≤ (s.outside 0).now

lemma Entry.flights {phase : ReadPhase} (h : Entry phase (s, read) (t, read')) :
    (∀ k ≠ read.infoHash, t.flightTimes k = s.flightTimes k) ∧ (read.phase ≠ .peerWait →
      t.flightTimes = s.flightTimes ∧ read'.phase ≠ .peerWait ∨
        phase = .peerWait ∧ Enters s read t read') := by
  cases h with
  | recheck | download | resume => exact ⟨fun _ _ => rfl, fun _ => .inl ⟨rfl, nofun⟩⟩
  | windowEnded _ _ status now elapsed waits =>
    exact ⟨fun k hk => by simp [flightTimes, hk], fun hphase => absurd waits hphase⟩
  | peerFound _ _ elapsed waits =>
    exact ⟨fun k hk => by simp [flightTimes, hk], fun hphase => absurd waits hphase⟩
  | @discover _ _ scheduler added adds =>
    have hhash : (read.withReader added).infoHash = read.infoHash := by cases added <;> rfl
    rw [hhash]
    refine ⟨fun k hk => by simp [flightTimes, hk], fun _ => .inr ⟨rfl, ?_, ?_⟩⟩
    · simp [flightTimes]
    · unfold flightTimes
      rw [get_insert_self]
      unfold coldFlight
      cases hflight : s.coldFlights.get read.infoHash with
      | none => exact .inr nofun
      | some flight =>
        cases hexpired : flight.isExpired (s.outside 0).now with
        | false =>
          refine .inl ?_
          simp only [hexpired, Bool.false_eq_true, if_false]
        | true =>
          refine .inr fun times htimes => ?_
          cases htimes
          exact of_decide_eq_true hexpired

lemma Stepped.flightTimes_of_ne (h : Stepped phases s read p) (hk : k ≠ read.infoHash) :
    p.state.flightTimes k = s.flightTimes k := by
  cases h with
  | stay parts => exact congrFun (flights_of_parts parts).1 k
  | @enter b _ _ _ before mem entry =>
    have hhash : b.2.infoHash = read.infoHash := congrArg (·.infoHash) (core_of_parts before)
    exact (entry.flights.1 k (hhash ▸ hk)).trans (congrFun (flights_of_parts before).1 k)
  | seeder status now before phase hasSeeder after =>
    exact congrFun ((flights_of_parts after).1.trans (flights_of_parts before).1) k

lemma Stepped.attached_of_ne (h : Stepped phases s read p) (hk : read.infoHash ≠ k)
    (hothers : Attached s k others) : Attached p.state k (p.read :: others) := by
  unfold Attached
  rw [h.flightTimes_of_ne hk.symm]
  exact List.forall_mem_cons.mpr
    ⟨fun hhash => absurd (h.passed.infoHash.symm.trans hhash) hk, hothers⟩

/-- A step of a read that is not in the peer wait leaves the others attached. -/
lemma Stepped.attached (h : Stepped phases s read p) (hphase : read.phase ≠ .peerWait)
    (hk : read.infoHash = k) (hothers : Attached s k others)
    (henter : .peerWait ∈ phases → s.MayEnter k others) :
    Attached p.state k (p.read :: others) := by
  have hsame : p.state.flightTimes = s.flightTimes → p.read.phase ≠ .peerWait →
      Attached p.state k (p.read :: others) := by
    intro htimes hout
    unfold Attached
    rw [htimes]
    exact List.forall_mem_cons.mpr ⟨fun _ hwaits => absurd hwaits hout, hothers⟩
  cases h with
  | stay parts =>
    have hcore : _ = read.core := core_of_parts parts
    exact hsame (flights_of_parts parts).1 ((congrArg (·.phase) hcore).trans_ne hphase)
  | @seeder v _ read₁ _ _ status now before phase hasSeeder after =>
    have hphase' : _ = read₁.phase := congrArg (·.phase) (core_of_parts after)
    exact hsame ((flights_of_parts after).1.trans (flights_of_parts before).1)
      ((hphase'.trans phase).trans_ne nofun)
  | @enter b _ _ _ before mem entry =>
    obtain ⟨htimes, houtside⟩ := flights_of_parts before
    have hcore : b.2.core = read.core := core_of_parts before
    have hhash : b.2.infoHash = k := (congrArg (·.infoHash) hcore).trans hk
    obtain ⟨hkept, hout⟩ | ⟨rfl, henters⟩ :=
      entry.flights.2 ((congrArg (·.phase) hcore).trans_ne hphase)
    · exact hsame (hkept.trans htimes) hout
    · obtain ⟨hattached, hjoins⟩ := henters
      rw [hhash, htimes] at hjoins
      rw [hhash] at hattached
      refine List.forall_mem_cons.mpr ⟨fun _ _ => hattached, fun other hother hother' hwaits => ?_⟩
      have htimes' := hothers other hother hother' hwaits
      rcases hjoins with hjoins | hexpired
      · exact hjoins.trans htimes'
      · -- nobody waits, or the flight has not expired
        rcases henter mem with hnobody | hlive
        · exact absurd hwaits (hnobody other hother hother')
        · obtain ⟨m, hm⟩ := houtside 0
          refine absurd (hexpired _ htimes') (Nat.not_le.mpr ?_)
          rw [hm]
          exact hlive _ htimes' m

lemma pollPeerWait_stays (h : endsWait s.outside read = false) :
    (s.pollPeerWait read).state.flightTimes = s.flightTimes ∧
      (s.pollPeerWait read).read.core = read.core := by
  unfold endsWait at h
  rw [or_eq_false_iff, decide_eq_false_iff_not] at h
  have hopen : ¬ read.phaseDeadline ≤ s.ask.1.now := h.1
  unfold pollPeerWait
  dsimp only
  by_cases hstops : s.ask.1.stopping = true
  · rw [if_pos hstops]
    exact ⟨rfl, rfl⟩
  rw [if_neg hstops, if_neg hopen]
  unfold probePeers
  dsimp only
  split
  · have hasked : s.ask.2.ask.1 = s.outside 1 := rfl
    rw [hasked]
    cases hstatus : (s.outside 1).status with
    | error e => simp [hstatus] at h
    | ok status =>
      rw [hstatus] at h
      dsimp only
      rw [if_neg (by simpa using h.2)]
      split
      · exact ⟨rfl, rfl⟩
      · next hflight =>
        exact ⟨(Part.reannounce s.ask.2.ask.2.ask.2 { read with status := status } _
          hflight).flights.1, rfl⟩
  · exact ⟨rfl, rfl⟩

lemma pollPeerWait_ends (h : endsWait s.outside read = true)
    (hparked : (s.pollPeerWait read).result = none) :
    (s.pollPeerWait read).read.phase = .pieceWait := by
  unfold endsWait at h
  rw [or_eq_true, decide_eq_true_iff] at h
  have hasked : s.ask.2.ask.1 = s.outside 1 := rfl
  unfold pollPeerWait endPeerWait probePeers at hparked ⊢
  dsimp only at hparked ⊢
  rw [hasked] at hparked ⊢
  split at hparked
  · cases hparked
  · next hgoes =>
    rw [if_neg hgoes]
    rcases hstatus : (s.outside 1).status with e | status
    all_goals
      rw [hstatus] at hparked h
      dsimp only at hparked ⊢
      split_ifs at hparked ⊢
      all_goals first
        | rfl
        | cases hparked
        | simp_all [ask]

/-- A poll that ends no peer wait leaves the parked reads attached. -/
lemma Attached.poll (h : Attached s k (read :: others)) (hstays : Stays k ⟨s, others, read⟩)
    (hp : s.pollRead read = some p) : Attached p.state k (p.read :: others) := by
  have hstepped := pollRead_stepped hp
  obtain ⟨hread, hothers⟩ := List.forall_mem_cons.mp h
  by_cases hk : read.infoHash = k
  · have hstays := hstays hk
    cases hphase : read.phase with
    | peerWait =>
      simp only [hphase] at hstays
      have hsame : p.state.flightTimes = s.flightTimes ∧ p.read.core = read.core := by
        unfold pollRead at hp
        split at hp
        · rw [hphase] at hp
          cases hp
          exact pollPeerWait_stays hstays
        · cases hp
          exact ⟨rfl, rfl⟩
      obtain ⟨htimes, hcore⟩ := hsame
      have hphase' : p.read.phase = read.phase := congrArg (·.phase) hcore
      have hstart : p.read.phaseStart = read.phaseStart := congrArg (·.phaseStart) hcore
      have hdeadline : p.read.phaseDeadline = read.phaseDeadline :=
        congrArg (·.phaseDeadline) hcore
      unfold Attached
      rw [htimes]
      refine List.forall_mem_cons.mpr ⟨fun _ _ => ?_, hothers⟩
      rw [hstart, hdeadline]
      exact hread hk hphase
    | waitState | recheck =>
      simp only [hphase] at hstays
      exact hstepped.attached (by rw [hphase]; nofun) hk hothers fun _ => hstays
    | pieceWait =>
      refine hstepped.attached (by rw [hphase]; nofun) hk hothers fun hmem => ?_
      simp [hphase, ReadPhase.next] at hmem
  · exact hstepped.attached_of_ne hk hothers

lemma Attached.perm {parked parked' : List PendingRead} (h : Attached s k parked)
    (hsub : parked' ⊆ parked) : Attached s k parked' :=
  fun read hread => h read (hsub hread)

lemma notMem_handles_of_removed (hrunning : s.isRunning = true)
    (hreceived : it.received = .command (.removeHandle k)) (h : s.step it = some t) :
    k ∉ t.handles := by
  rw [step, if_pos hrunning] at h
  simp only [hreceived, handleCommand, Option.bind_some] at h
  rw [(acts_poll it h).2.2.2.1]
  exact Finset.notMem_erase _ _

lemma Begun.attached {prepared : PreparedRead} {number : ℕ} (h : Begun s prepared number p)
    (hothers : Attached s k others) (henter : prepared.infoHash = k → s.MayEnter k others) :
    Attached p.state k (p.read :: others) := by
  cases h with
  | settling => exact List.forall_mem_cons.mpr ⟨fun _ h => (nomatch h), hothers⟩
  | waiting now steps =>
    have hothers' : Attached s.ask.2 k others := hothers
    by_cases hk : prepared.infoHash = k
    · refine steps.attached (fun h => nomatch h) hk hothers' fun _ => ?_
      exact (henter hk).imp_right fun hlive times htimes n => hlive times htimes (n + 1)
    · exact steps.attached_of_ne hk hothers'

lemma Attached.opened (h : Attached s k s.pendingReads)
    (hremoved : it.received ≠ .command (.removeHandle k))
    (hstart : ∀ prepared, it.Asks prepared → prepared.infoHash = k →
      MayEnter { s with outside := it.answers } k s.pendingReads) (hu : s.opened it = some u) :
    Attached u k u.pendingReads := by
  cases opening_of_opened hu with
  | same pendingReads coldFlights =>
    unfold Attached flightTimes
    rw [pendingReads, coldFlights k hremoved]
    exact h
  | @begun v prepared p flights asks answers begun coldFlights parked =>
    have hv : Attached v k s.pendingReads := by
      unfold Attached flightTimes
      rw [flights]
      exact h
    have hbegun := begun.attached hv fun hk => by
      refine (hstart prepared asks hk).imp_right fun hlive times htimes n => ?_
      obtain ⟨m, hm⟩ := answers n
      rw [hm]
      unfold flightTimes at htimes
      rw [flights] at htimes
      exact hlive times htimes m
    unfold Attached flightTimes
    rw [coldFlights]
    exact hbegun.perm parked

/-- A read of the torrent that is parked again has left the peer wait. -/
lemma Leaves.poll (h : Leaves k ⟨s, others, read⟩) (hp : s.pollRead read = some p)
    (hparked : p.result = none) (hk : p.read.infoHash = k) : p.read.phase ≠ .peerWait := by
  intro hwaits
  have hstepped := pollRead_stepped hp
  rcases h (hstepped.passed.infoHash.symm.trans hk) with hphase | ⟨hphase, hends⟩
  · cases hstepped.turn <;> simp_all [ReadPhase.rank]
  · unfold pollRead at hp
    split at hp
    · rw [hphase] at hp
      cases hp
      exact absurd ((pollPeerWait_ends hends hparked).symm.trans hwaits) nofun
    · cases hp
      cases hparked

lemma attached_of_steady (hs : ∀ k, Attached s k s.pendingReads) (hsteady : s.Steady it)
    (h : s.step it = some t) (k : Str) : Attached t k t.pendingReads := by
  by_cases hrunning : s.isRunning = true
  · by_cases hremoved : it.received = .command (.removeHandle k)
    · -- no read of the torrent is left
      rintro read hread rfl -
      exact absurd ((traced_of_step hrunning h).handles read hread)
        (notMem_handles_of_removed hrunning hremoved h)
    obtain ⟨u, hu, hpoll⟩ | hnil := opened_of_step hrunning h
    · have hpolls : s.polls it = pollsFrom { u with pendingReads := [] } [] u.pendingReads := by
        rw [polls, hu]
        rfl
      rcases hsteady k with hleaves | ⟨hstart, hstays⟩
      · rw [hpolls] at hleaves
        have hnone := invariant_of_pass (P := fun _ remaining _ => ∀ read ∈ remaining,
          read.infoHash = k → read.phase ≠ .peerWait) ?_ (fun _ _ h => h) (fun h => h)
          u.pendingReads hpoll hleaves (List.forall_mem_nil _)
        · exact fun read hread hk hwaits => absurd hwaits (hnone read hread hk)
        · intro v remaining read rest p hleave hp hparked hdone
          exact List.forall_mem_append.mpr
            ⟨hdone, List.forall_mem_singleton.mpr (hleave.poll hp hparked)⟩
      · rw [hpolls] at hstays
        have hkept := invariant_of_pass (P := fun v remaining rest =>
          Attached v k (remaining ++ rest)) ?_ ?_ (fun h => h) u.pendingReads hpoll hstays
          ((hs k).opened hremoved hstart hu)
        · exact hkept.perm (by simp)
        · intro v remaining read rest p hstay hp _ hattached
          exact ((hattached.perm (by simp)).poll hstay hp).perm (by simp)
        · intro v remaining read rest p _ _ _ _ hstay hp hattached
          exact ((hattached.perm (by simp)).poll hstay hp).perm (List.subset_cons_self _ _)
    · rw [hnil]
      exact fun read hread => absurd hread List.not_mem_nil
  · rw [step, if_neg hrunning] at h
    cases h
    exact hs k

/-! ### Announces and verdicts -/

/-- Announces and verdicts, for an engine with these timeouts. -/
structure Sensible (timeouts : Timeouts) (k : Str) (l : Ledger) : Prop where
  configured : l.state.timeouts = timeouts
  frugal : (l.state.swarm k).Frugal
  evidenced : Evidenced (discoveryWindow timeouts) (l.state.swarm k)

lemma Act.sensible {timeouts : Timeouts} {k : Str} {l l' : Ledger} (h : Act it l l')
    (hl : Sensible timeouts k l) : Sensible timeouts k l' := by
  have hsteps := h.swarm (k := k) (congrArg discoveryWindow hl.configured)
  exact ⟨h.grows.1.trans hl.configured, invariant_of_steps Step.frugal hsteps hl.frugal,
    invariant_of_steps Step.evidenced hsteps hl.evidenced⟩

lemma sensible_of_run (config : PiecePriorityConfig) (cacheCapacityBytes : ℕ) (t : Timeouts)
    (outside : ℕ → Answers) {its : List Iteration}
    (hrun : Run.runFrom step (new config cacheCapacityBytes t.readTimeout t.peerDiscoveryWait
      t.peerWaitCap t.noSeederReadTimeout outside) its = some s) (k : Str) :
    Sensible t k s.ledger := by
  refine invariant_of_loop Act.sensible ⟨rfl, ⟨0, rfl, ?_⟩, ?_⟩ hrun
  all_goals simp [Evidenced, ledger, swarm, new]

def sharedFlight : List Iteration :=
  [readFirstPiece sampleInfo fun _ => sampleAnswers,
    readFirstPiece sampleInfo fun _ => sampleAnswers]

/-- An iteration that reads the first piece, with answers that stay the same, and in which every
poll leaves a read in the peer wait. -/
lemma steady_of_waiting {a : Answers}
    (hpolls : ∀ poll ∈ s.polls (readFirstPiece sampleInfo fun _ => a),
      poll.read.phase = .peerWait ∧ endsWait poll.state.outside poll.read = false)
    (hflight : ∀ times ∈ s.flightTimes ['a'], a.now < times.2) :
    s.Steady (readFirstPiece sampleInfo fun _ => a) := by
  refine fun k => .inr ⟨?_, fun poll hpoll _ => ?_⟩
  · rintro prepared ⟨c, hreceived, hinfo, hhash⟩ rfl
    cases hreceived
    have hsame : sampleInfo = prepared.info := Option.some.inj hinfo
    rw [← hsame] at hhash
    exact .inr fun times htimes n => hflight times (Except.ok.inj hhash ▸ htimes)
  · rw [(hpolls poll hpoll).1]
    exact (hpolls poll hpoll).2

/-- The phases in which a read looks for a peer or downloads. -/
def Proceeds (p : Polled) : Prop :=
  p.result = none ∧ (p.read.phase = .peerWait ∨ p.read.phase = .pieceWait)

lemma addReader_spec (h : s.addReader read = some p) :
    p.state.sourceless = s.sourceless ∧ (read.infoHash ∈ s.handles → Proceeds p) := by
  unfold addReader at h
  split at h
  · dsimp only at h
    split at h
    · cases h
    · next scheduler added _ =>
      cases h
      rcases added with e | ⟨id, isRegistered⟩
      all_goals
        dsimp only
        split
        · exact ⟨rfl, fun _ => ⟨rfl, .inl rfl⟩⟩
        · exact ⟨rfl, fun _ => ⟨rfl, .inr rfl⟩⟩
  · next hhandle =>
    cases h
    exact ⟨rfl, fun hmem => absurd hmem hhandle⟩

lemma inheritVerdict_of_spent (hspent : ∀ verdict ∈ s.sourceless.get read.infoHash,
      ∀ status ∈ s.statusOf read.infoHash (s.outside 0),
        swarmIsEmpty status.numPeers status.numSeeds = false ∨
          verdict.isLive (s.outside 0).now = false) : (s.inheritVerdict read).2.2 = none ∧
    (s.inheritVerdict read).2.1.infoHash = read.infoHash ∧
    (s.inheritVerdict read).1.handles = s.handles ∧
    (s.inheritVerdict read).1.sourceless.get read.infoHash = none := by
  unfold inheritVerdict
  cases hverdict : s.sourceless.get read.infoHash with
  | none => exact ⟨rfl, rfl, rfl, hverdict⟩
  | some verdict =>
    have hask : s.ask.2.statusOf read.infoHash s.ask.1 =
      s.statusOf read.infoHash (s.outside 0) := rfl
    dsimp only
    rw [hask]
    cases hstatus : s.statusOf read.infoHash (s.outside 0) with
    | none => simp [ask]
    | some status =>
      have hspoken : ¬ (swarmIsEmpty status.numPeers status.numSeeds &&
          verdict.isLive s.ask.1.now) = true := by
        rw [not_eq_true, and_eq_false_iff]
        exact hspent verdict hverdict status hstatus
      dsimp only
      rw [if_neg hspoken]
      simp [ask]

lemma beginWaiting_of_spent (h : s.beginWaiting read = some p)
    (hmissing : s.allPiecesLocal read.infoHash (s.outside 0) read.range = false)
    (hspent : ∀ verdict ∈ s.sourceless.get read.infoHash,
      ∀ status ∈ s.statusOf read.infoHash (s.outside 1),
        swarmIsEmpty status.numPeers status.numSeeds = false ∨
          verdict.isLive (s.outside 1).now = false) :
    p.state.sourceless.get read.infoHash = none ∧ (read.infoHash ∈ s.handles → Proceeds p) := by
  unfold beginWaiting at h
  have hremote : ¬ s.ask.2.allPiecesLocal read.infoHash s.ask.1 read.range = true :=
    not_eq_true _ ▸ hmissing
  dsimp only at h
  rw [if_neg hremote] at h
  obtain ⟨hnone, hhash, hhandles, hdropped⟩ := inheritVerdict_of_spent (s := s.ask.2) hspent
  generalize s.ask.2.inheritVerdict read = inherited at h hnone hhash hhandles hdropped
  obtain ⟨t, read', result⟩ := inherited
  obtain rfl : result = none := hnone
  obtain ⟨hsame, hproceeds⟩ := addReader_spec h
  rw [hsame]
  rw [hhash, hhandles] at hproceeds
  exact ⟨hdropped, hproceeds⟩

lemma swarmIsEmpty_of_present {status : TorrentStatus}
    (h : 0 < status.numPeers ∨ 0 < status.numSeeds) :
    swarmIsEmpty status.numPeers status.numSeeds = false := by
  simp only [swarmIsEmpty, and_eq_false_iff, beq_eq_false_iff_ne]
  omega

lemma pollPeerWait_of_present {status : TorrentStatus} (hrunning : (s.outside 0).stopping = false)
    (hstatus : s.statusOf read.infoHash (s.outside 1) = some status)
    (hpresent : 0 < status.numPeers ∨ 0 < status.numSeeds) :
    (s.pollPeerWait read).state.sourceless.get read.infoHash = none := by
  unfold statusOf at hstatus
  split at hstatus
  · next hhandle =>
    have hok : (s.outside 1).status = .ok status := by
      cases hanswer : (s.outside 1).status with
      | error e => simp [hanswer, Except.toOption] at hstatus
      | ok status' => simpa [hanswer, Except.toOption] using hstatus
    unfold pollPeerWait endPeerWait probePeers
    simp only [ask, hrunning, false_eq_true, if_false, hhandle, if_true, hok,
      swarmIsEmpty_of_present hpresent, hpresent]
    split <;> simp [enterPieceWait, ask]
  · cases hstatus

/-- In every run, wherever an iteration has got to, a read that misses a piece and ends when it
begins to wait ends on a status, taken in the same step, that shows nobody, less than one window
after a probe on the same handle gave up on an empty swarm. In every state, a poll that sees a peer
or a seed, and the start of a read that misses a piece and sees one, leave no verdict; and a read
that consults an expired verdict drops it and goes on. -/
theorem verdicts_of_run (config : PiecePriorityConfig) (cacheCapacityBytes : ℕ) (t : Timeouts)
    (outside : ℕ → Answers) (its : List Iteration) (s : EngineState)
    (hrun : Run.runFrom step (new config cacheCapacityBytes t.readTimeout t.peerDiscoveryWait
      t.peerWaitCap t.noSeederReadTimeout outside) its = some s) :
    (∀ (it : Iteration) (l : Ledger) (u : EngineState) (before read : PendingRead) (p : Polled),
      Acts it s.ledger l → Parts (l.state, before) (u, read) → u.beginWaiting read = some p →
      u.allPiecesLocal read.infoHash (u.outside 0) read.range = false →
      read.infoHash ∈ u.handles → p.result.isSome = true →
      ∃ status ∈ u.statusOf read.infoHash (u.outside 1),
        swarmIsEmpty status.numPeers status.numSeeds = true ∧
        ∃ time, GaveUp (u.eventsOf read.infoHash) time ∧
          (u.outside 1).now - time < discoveryWindow t) ∧
    (∀ (u : EngineState) (read : PendingRead) (status : TorrentStatus),
      (u.outside 0).stopping = false → u.statusOf read.infoHash (u.outside 1) = some status →
      0 < status.numPeers ∨ 0 < status.numSeeds →
      (u.pollPeerWait read).state.sourceless.get read.infoHash = none) ∧
    (∀ (u : EngineState) (read : PendingRead) (p : Polled), u.beginWaiting read = some p →
      u.allPiecesLocal read.infoHash (u.outside 0) read.range = false →
      (∀ status ∈ u.statusOf read.infoHash (u.outside 1),
        0 < status.numPeers ∨ 0 < status.numSeeds) → p.state.sourceless.get read.infoHash = none) ∧
    (∀ (u : EngineState) (read : PendingRead) (p : Polled) (verdict : SourcelessSwarm),
      u.beginWaiting read = some p →
      u.allPiecesLocal read.infoHash (u.outside 0) read.range = false →
      u.sourceless.get read.infoHash = some verdict → verdict.isLive (u.outside 1).now = false →
      p.state.sourceless.get read.infoHash = none ∧ (read.infoHash ∈ u.handles → Proceeds p)) := by
  refine ⟨fun it l u before read p hacts hparts hp hmissing hhandle hended => ?_,
    fun u read status => pollPeerWait_of_present,
    fun u read p hp hmissing hpresent => ?_, fun u read p verdict hp hmissing hverdict hold => ?_⟩
  · have hsensible := invariant_of_acts Act.sensible hacts
      (sensible_of_run config cacheCapacityBytes t outside hrun read.infoHash)
    have hevidenced : Evidenced (discoveryWindow t) (u.swarm read.infoHash) :=
      invariant_of_steps Step.evidenced (swarm_of_parts hparts) hsensible.evidenced
    by_contra hnone
    -- a verdict that does not speak for the swarm would let the read go on
    have hproceeds := (beginWaiting_of_spent hp hmissing fun verdict hverdict status hstatus => by
      by_contra hspeaks
      obtain ⟨hempty, hlive⟩ := not_or.mp hspeaks
      rw [not_eq_false] at hempty hlive
      obtain ⟨hwindow, hgave⟩ := hevidenced verdict hverdict
      refine hnone ⟨status, hstatus, hempty, verdict.gaveUp, hgave, ?_⟩
      rw [← hwindow]
      exact of_decide_eq_true hlive).2 hhandle
    rw [hproceeds.1] at hended
    cases hended
  · refine (beginWaiting_of_spent hp hmissing fun verdict _ status hstatus => .inl ?_).1
    exact swarmIsEmpty_of_present (hpresent status hstatus)
  · refine beginWaiting_of_spent hp hmissing fun verdict' hverdict' status _ => .inr ?_
    obtain rfl := Option.some.inj (hverdict.symm.trans hverdict')
    exact hold

def givenUp : List Iteration :=
  [readFirstPiece sampleInfo fun _ => sampleAnswers,
    ⟨.timeout, [], fun _ => { sampleAnswers with now := secs 30 }⟩]

def laterRead : PendingRead :=
  .new ⟨sampleInfo, 0, 0, ['a'], firstPiece, ⟨.downloading, 0, 0⟩⟩ 1 (secs 31)

/-- A read that comes a second after the probe has given up. -/
theorem verdicts_of_laterRead :
    ∃ s, Run.runFrom step sampleEngine givenUp = some s ∧
      ∃ p, beginWaiting { s with outside := fun _ => { sampleAnswers with now := secs 31 } }
        laterRead = some p ∧ p.result.isSome = true ∧
        ∃ time, GaveUp (s.eventsOf ['a']) time ∧ secs 31 - time < secs 30 := by
  obtain ⟨s, hs, hhandle, p, hp, hmissing, hended⟩ :
      ∃ s, Run.runFrom step sampleEngine givenUp = some s ∧ ['a'] ∈ s.handles ∧
        ∃ p, beginWaiting { s with outside := fun _ => { sampleAnswers with now := secs 31 } }
          laterRead = some p ∧
          allPiecesLocal { s with outside := fun _ => { sampleAnswers with now := secs 31 } } ['a']
            { sampleAnswers with now := secs 31 } firstPiece = false ∧
          p.result.isSome = true := by decide +kernel
  obtain ⟨-, -, -, hgave⟩ := (verdicts_of_run sampleConfig 8 ⟨60, 30, none, 10⟩
    (fun _ => sampleAnswers) givenUp s hs).1 ⟨.timeout, [], fun _ => sampleAnswers⟩ _ _ laterRead
    laterRead p (.single (.outside s _ _ _)) .refl hp hmissing hhandle hended
  exact ⟨s, hs, p, hp, hended, hgave⟩

end EngineState

end TorrentFs.Download
