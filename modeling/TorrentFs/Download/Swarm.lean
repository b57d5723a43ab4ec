import TorrentFs.Download.EngineTurns

/-!
# The swarm of one torrent

The reads that wait for a peer of one torrent share its cold flight, and the reads that come later
may inherit the verdict of a probe that has given up. The engine keeps flights and verdicts in maps
over the torrents, and what happens to one torrent does not depend on the others: seen from one
torrent, an act of the loop is a chain of the steps of a small machine.
-/

namespace TorrentFs.Download

open Text Word List Option FinMap

/-- What the engine knows of the swarm of one torrent, and the log of the torrent. -/
structure Swarm where
  flight : Option ColdFlight
  verdict : Option SourcelessSwarm
  log : List SwarmEvent

namespace Swarm

/-- A step of an engine with a discovery window. -/
inductive Step (window : ℕ) : Swarm → Swarm → Prop
  | start (s : Swarm) (now : ℕ) :
      Step window s { s with
        flight := some (.new now window)
        log := s.log ++ [.flightStarted] }
  | announce (s : Swarm) {flight : ColdFlight} (now : ℕ) (found : s.flight = some flight) :
      Step window s { s with
        flight := some (flight.takeReannounce now).2
        log := s.log ++ if (flight.takeReannounce now).1 then [.flightReannounced] else [] }
  /-- A read removes the flight. -/
  | finish (s : Swarm) : Step window s { s with flight := none }
  | giveUp (s : Swarm) {numPeers numSeeds : ℤ} (now elapsed : ℕ)
      (isEmpty : swarmIsEmpty numPeers numSeeds = true) :
      Step window s { s with
        verdict := some (.new now window elapsed)
        log := s.log ++ [.gaveUp numPeers numSeeds now] }
  | drop (s : Swarm) : Step window s { s with verdict := none }
  /-- A read ends on the verdict. -/
  | inherit (s : Swarm) {verdict : SourcelessSwarm} (now : ℕ) (found : s.verdict = some verdict) :
      Step window s { s with verdict := some (verdict.takeReannounce now).2 }
  | addHandle (s : Swarm) :
      Step window s { s with verdict := none, log := s.log ++ [.handleAdded] }
  | removeHandle (s : Swarm) :
      Step window s ⟨none, none, s.log ++ [.handleRemoved]⟩

abbrev Steps (window : ℕ) := Relation.ReflTransGen (Step window)

variable {window : ℕ} {s t : Swarm}

lemma invariant_of_steps {Inv : Swarm → Prop} (hstep : ∀ {s t}, Step window s t → Inv s → Inv t)
    (h : Steps window s t) (hs : Inv s) : Inv t := by
  induction h with
  | refl => exact hs
  | tail _ step ih => exact hstep step ih

/-! ### Announces -/

/-- What is left of the announces of a flight after an event; `none` when there were too many. -/
def spend (left : Option ℕ) : SwarmEvent → Option ℕ
  | .flightStarted => left.map fun _ => 1
  | .flightReannounced => left.bind fun n => if n = 0 then none else some (n - 1)
  | _ => left

def announcesLeft (log : List SwarmEvent) : Option ℕ := log.foldl spend (some 0)

/-- No flight has announced more than twice, and one that can announce may. -/
def Frugal (s : Swarm) : Prop :=
  ∃ n, announcesLeft s.log = some n ∧
    ∀ flight, s.flight = some flight → flight.reannounced = false → n = 1

lemma Step.frugal (h : Step window s t) (hs : s.Frugal) : t.Frugal := by
  obtain ⟨n, hn, hflight⟩ := hs
  unfold announcesLeft at hn
  cases h with
  | drop | inherit => exact ⟨n, hn, hflight⟩
  | start => exact ⟨1, by simp [announcesLeft, hn, spend], fun _ _ _ => rfl⟩
  | giveUp | addHandle => exact ⟨n, by simp [announcesLeft, hn, spend], hflight⟩
  | finish => exact ⟨n, hn, nofun⟩
  | removeHandle => exact ⟨n, by simp [announcesLeft, hn, spend], nofun⟩
  | @announce flight now found =>
    unfold ColdFlight.takeReannounce
    split
    · exact ⟨n, by simpa [announcesLeft] using hn, fun f hf => hflight f (by simp_all)⟩
    · next hdue =>
      obtain rfl := hflight flight found (by simp_all)
      exact ⟨0, by simp [announcesLeft, hn, spend], by simp⟩

/-! ### Verdicts -/

/-- A probe has given up on an empty swarm, on the handle that is still there. -/
def GaveUp (log : List SwarmEvent) (time : ℕ) : Prop :=
  ∃ before numPeers numSeeds after, log = before ++ .gaveUp numPeers numSeeds time :: after ∧
    swarmIsEmpty numPeers numSeeds = true ∧ .handleAdded ∉ after ∧ .handleRemoved ∉ after

/-- The verdict speaks for a probe that has given up. -/
def Evidenced (window : ℕ) (s : Swarm) : Prop :=
  ∀ v, s.verdict = some v → v.window = window ∧ GaveUp s.log v.gaveUp

lemma GaveUp.append {log events : List SwarmEvent} {time : ℕ} (h : GaveUp log time)
    (hadded : .handleAdded ∉ events) (hremoved : .handleRemoved ∉ events) :
    GaveUp (log ++ events) time := by
  obtain ⟨before, numPeers, numSeeds, after, rfl, hempty, hnone⟩ := h
  refine ⟨before, numPeers, numSeeds, after ++ events, by simp, hempty, ?_⟩
  simp [hnone, hadded, hremoved]

lemma Step.evidenced (h : Step window s t) (hs : Evidenced window s) : Evidenced window t := by
  cases h with
  | finish => exact hs
  | drop | addHandle | removeHandle => exact nofun
  | start => exact fun v hv => ⟨(hs v hv).1, (hs v hv).2.append (by simp) (by simp)⟩
  | announce =>
    refine fun v hv => ⟨(hs v hv).1, (hs v hv).2.append ?_ ?_⟩ <;> split <;> simp
  | @giveUp numPeers numSeeds now elapsed isEmpty =>
    rintro v ⟨⟩
    exact ⟨rfl, s.log, numPeers, numSeeds, [], rfl, isEmpty, by simp, by simp⟩
  | @inherit verdict now found =>
    rintro v ⟨⟩
    have hsame : (verdict.takeReannounce now).2.window = verdict.window ∧
        (verdict.takeReannounce now).2.gaveUp = verdict.gaveUp := by
      unfold SourcelessSwarm.takeReannounce
      split <;> exact ⟨rfl, rfl⟩
    rw [hsame.1, hsame.2]
    exact hs verdict found

end Swarm

namespace EngineState

open Swarm (Steps)

def eventsOf (s : EngineState) (infoHash : Str) : List SwarmEvent :=
  s.log.filterMap fun e => if e.1 = infoHash then some e.2 else none

def swarm (s : EngineState) (infoHash : Str) : Swarm :=
  ⟨s.coldFlights.get infoHash, s.sourceless.get infoHash, s.eventsOf infoHash⟩

def discoveryWindow (t : Timeouts) : ℕ :=
  secs (peerDiscoveryWindowSecs t.readTimeout t.peerDiscoveryWait t.peerWaitCap)

section Simulation

variable {s t : EngineState} {read read' : PendingRead} {p : Polled} {phases : List ReadPhase}
  {k : Str} {window : ℕ}

lemma eventsOf_append {events : List SwarmEvent} {infoHash : Str}
    (h : t.log = s.log ++ events.map (Prod.mk infoHash)) (k : Str) :
    t.eventsOf k = s.eventsOf k ++ if infoHash = k then events else [] := by
  unfold eventsOf
  rw [h, filterMap_append, filterMap_map]
  by_cases hk : infoHash = k <;> simp [hk]

lemma steps_of_local (events : List SwarmEvent) (infoHash : Str)
    (hother : ∀ k ≠ infoHash, t.coldFlights.get k = s.coldFlights.get k ∧
      t.sourceless.get k = s.sourceless.get k)
    (hlog : t.log = s.log ++ events.map (Prod.mk infoHash))
    (hself : infoHash = k → Steps window (s.swarm k)
      ⟨t.coldFlights.get k, t.sourceless.get k, s.eventsOf k ++ events⟩) :
    Steps window (s.swarm k) (t.swarm k) := by
  unfold swarm at hself ⊢
  rw [eventsOf_append hlog]
  by_cases hk : infoHash = k
  · rw [if_pos hk]
    exact hself hk
  · obtain ⟨hflight, hverdict⟩ := hother k (Ne.symm hk)
    rw [if_neg hk, append_nil, hflight, hverdict]

lemma Part.swarm (h : Part (s, read) (t, read')) : Steps window (s.swarm k) (t.swarm k) := by
  cases h with
  | ask | note | markDirty | recompute => exact .refl
  | pieceReady =>
    unfold EngineState.pieceReady
    split <;> exact .refl
  | @reannounce _ _ flight now found =>
    refine steps_of_local (if (flight.takeReannounce now).1 then [.flightReannounced] else [])
      read.infoHash (fun k hk => by simp [hk]) (by split <;> rfl) ?_
    rintro rfl
    rw [get_insert_self]
    exact .single (.announce (s.swarm read.infoHash) now found)
  | dropVerdict =>
    refine steps_of_local [] read.infoHash (fun k hk => by simp [hk]) (by simp) ?_
    rintro rfl
    rw [get_erase, if_pos rfl, append_nil]
    exact .single (.drop (s.swarm read.infoHash))
  | @applyVerdict _ _ verdict now found =>
    refine steps_of_local [] read.infoHash (fun k hk => by simp [hk]) (by simp) ?_
    rintro rfl
    rw [get_insert_self, append_nil]
    exact .single (.inherit (s.swarm read.infoHash) now found)

lemma swarm_of_parts {a b : EngineState × PendingRead} (h : Parts a b) :
    Steps window (a.1.swarm k) (b.1.swarm k) := by
  induction h with
  | refl => exact .refl
  | tail _ part ih => exact ih.trans part.swarm

lemma Entry.swarm {phase : ReadPhase} (h : Entry phase (s, read) (t, read'))
    (hwindow : discoveryWindow s.timeouts = window) : Steps window (s.swarm k) (t.swarm k) := by
  cases h with
  | recheck | download | resume => exact .refl
  | @discover _ _ scheduler added adds =>
    have hhash : (read.withReader added).infoHash = read.infoHash := by cases added <;> rfl
    rw [hhash]
    refine steps_of_local (if s.startsFlight read.infoHash (s.outside 0).now then [.flightStarted]
      else []) read.infoHash (fun k hk => by simp [hk]) ?_ ?_
    · change _ ++ (if s.startsFlight read.infoHash (s.outside 0).now then _ else _) = _
      split <;> rfl
    · rintro rfl
      rw [get_insert_self]
      unfold coldFlight startsFlight
      cases hflight : s.coldFlights.get read.infoHash with
      | none =>
        rw [← hwindow]
        exact .single (.start (s.swarm read.infoHash) _)
      | some flight =>
        cases hexpired : flight.isExpired (s.outside 0).now with
        | true =>
          rw [← hwindow]
          simp only [hexpired, all_some, if_true]
          exact .single (.start (s.swarm read.infoHash) _)
        | false =>
          simp only [hexpired, all_some, Bool.false_eq_true, if_false, append_nil]
          rw [← hflight]
          exact .refl
  | windowEnded _ _ status now elapsed =>
    refine steps_of_local (if swarmIsEmpty status.numPeers status.numSeeds then
      [.gaveUp status.numPeers status.numSeeds now] else []) read.infoHash
      (fun k hk => by split <;> simp [hk]) (by split <;> rfl) ?_
    rintro rfl
    refine .head (.finish (s.swarm read.infoHash)) ?_
    by_cases hempty : swarmIsEmpty status.numPeers status.numSeeds = true
    · simp only [hempty, if_true, get_insert_self, get_erase]
      have hstep : Swarm.Step window _ _ := .giveUp
        { s.swarm read.infoHash with flight := none } now elapsed hempty
      exact .single (hwindow ▸ hstep)
    · simp only [hempty, Bool.false_eq_true, if_false, get_erase, if_true, append_nil]
      exact .single (.drop _)
  | peerFound =>
    refine steps_of_local [] read.infoHash (fun k hk => by simp [hk]) (append_nil _).symm ?_
    rintro rfl
    simp only [get_erase, if_true, append_nil]
    exact .head (.finish (s.swarm read.infoHash)) (.single (.drop _))

lemma Stepped.swarm (h : Stepped phases s read p) (hwindow : discoveryWindow s.timeouts = window) :
    Steps window (s.swarm k) (p.state.swarm k) := by
  cases h with
  | stay parts => exact swarm_of_parts parts
  | enter before mem entry =>
    have htimeouts := (quiet_of_parts before).timeouts
    exact (swarm_of_parts before).trans (entry.swarm (by rw [htimeouts, hwindow]))
  | seeder status now before phase hasSeeder after =>
    exact (swarm_of_parts before).trans (swarm_of_parts after)

lemma Begun.swarm {prepared : PreparedRead} {number : ℕ} (h : Begun s prepared number p)
    (hwindow : discoveryWindow s.timeouts = window) :
    Steps window (s.swarm k) (p.state.swarm k) := by
  cases h with
  | settling => exact .refl
  | waiting now steps => exact Stepped.swarm (s := s.ask.2) steps hwindow

lemma Act.swarm {it : Iteration} {l l' : Ledger} (h : Act it l l')
    (hwindow : discoveryWindow l.state.timeouts = window) :
    Steps window (l.state.swarm k) (l'.state.swarm k) := by
  cases h with
  | outside | move | accept | refuse | stop => exact .refl
  | pieceReady =>
    unfold EngineState.pieceReady
    split <;> exact .refl
  | @addHandle s parked starting infoHash =>
    refine steps_of_local [_] infoHash (fun k hk => by simp [EngineState.addHandle, hk]) rfl ?_
    rintro rfl
    simp only [EngineState.addHandle, get_erase, if_true]
    exact .single (.addHandle (s.swarm infoHash))
  | @removeHandle s parked infoHash received =>
    refine steps_of_local [_] infoHash (fun k hk => by simp [EngineState.removeHandle, hk]) rfl ?_
    rintro rfl
    simp only [EngineState.removeHandle, get_erase, if_true]
    exact .single (.removeHandle (s.swarm infoHash))
  | serve parked asks begun | park parked asks handle begun => exact begun.swarm hwindow
  | poll before after polled => exact (pollRead_stepped polled).swarm hwindow
  | finish before after polled ended finished =>
    obtain ⟨outside, scheduler, rfl⟩ := finishRead_cases finished
    exact Stepped.swarm (pollRead_stepped polled) hwindow
  | abort after finished =>
    obtain ⟨outside, scheduler, rfl⟩ := finishRead_cases finished
    exact .refl

end Simulation

end EngineState

end TorrentFs.Download
