import TorrentFs.Config.Settings
import TorrentFs.Download.EngineReads

/-!
# The wait windows of one read

Each phase of a parked read has a window: the settle wait, the recheck, the peer discovery and the
piece wait, which starts again when a seeder connects. `read_wait_budget_secs` adds up one window of
each kind, and the deadline of the reply of the file system is derived from this sum. The sum is an
upper bound for a read that never leaves the piece wait. A stale piece sends the read back to a
recheck and from there into a new piece wait, as often as pieces go stale.
-/

namespace TorrentFs.Download

open Text Word List Bool

def readWaitBudgetSecs (readTimeoutSecs peerDiscoveryWaitSecs : ℕ) (peerWaitCapSecs : Option ℕ)
    (noSeederReadTimeoutSecs : ℕ) : ℕ :=
  let recheckWait := min readTimeoutSecs recheckWaitCapSecs
  let peerWait := peerDiscoveryWindowSecs readTimeoutSecs peerDiscoveryWaitSecs peerWaitCapSecs
  let noSeederWait := min readTimeoutSecs noSeederReadTimeoutSecs
  satAddU64 (satAddU64 (satAddU64 (satAddU64 readTimeoutSecs recheckWait) peerWait) noSeederWait)
    readTimeoutSecs

namespace Timeouts

def budget (t : Timeouts) : ℕ :=
  readWaitBudgetSecs t.readTimeout t.peerDiscoveryWait t.peerWaitCap t.noSeederReadTimeout

def ofConfig (c : Config.TimeoutsConfig) : Timeouts :=
  ⟨c.resolvedReadTimeoutSecs, c.resolvedPeerDiscoveryWaitSecs, c.resolvedPeerWaitCapSecs,
    c.resolvedNoSeederReadTimeoutSecs⟩

def window (t : Timeouts) (read : PendingRead) : ℕ :=
  match read.phase with
  | .waitState => t.readTimeout
  | .recheck => min t.readTimeout recheckWaitCapSecs
  | .peerWait => peerDiscoveryWindowSecs t.readTimeout t.peerDiscoveryWait t.peerWaitCap
  | .pieceWait => pieceWaitWindowSecs read.hasSeeder read.isPeerWaitExhausted t.readTimeout
      t.noSeederReadTimeout

/-- What a step grants: the window of the phase that the read enters, or a new window of the piece
wait when a seeder connects. -/
def grant (t : Timeouts) (read read' : PendingRead) : ℕ :=
  if read'.phase = read.phase ∧ read'.hasSeeder = read.hasSeeder then 0 else t.window read'

end Timeouts

/-- A read, the sum of the windows granted to it, and whether it has ended. -/
structure Waiting where
  read : PendingRead
  granted : ℕ
  ended : Bool

def admission (t : Timeouts) (s : EngineState) (prepared : PreparedRead) (reply : ℕ) :
    Option Waiting :=
  if s.timeouts = t then
    (s.admitRead prepared reply).bind fun s' =>
      s'.pendingReads[s.pendingReads.length]?.map fun read => ⟨read, t.window read, false⟩
  else none

/-- The read is polled in a state of the engine. Between two polls the engine may do anything: the
states are only tied by the timeouts. -/
def waitStep (t : Timeouts) (w : Waiting) (s : EngineState) : Option Waiting :=
  if w.ended = false ∧ s.timeouts = t then
    (s.pollRead w.read).map fun p =>
      ⟨p.read, w.granted + t.grant w.read p.read, p.result.isSome⟩
  else none

/-- While the read waits for its pieces, none of them is stale: a piece that libtorrent has, whose
file is gone or too short, and that is not complete in the cache. -/
def NoStalePiece (w : Waiting) (s : EngineState) : Prop :=
  w.read.phase = .pieceWait → ∀ n, ∀ piece ∈ w.read.remainingPieces,
    (s.outside n).havePiece piece = true → (s.outside n).hasStalePiece piece = true →
      (s.outside n).isPieceComplete piece = true

/-! ### The bound of a phase -/

namespace Timeouts

/-- What a read can have been granted when it is in a phase, if it passes each phase once. -/
def bound (t : Timeouts) (read : PendingRead) : ℕ :=
  let recheckWait := min t.readTimeout recheckWaitCapSecs
  let peerWait := peerDiscoveryWindowSecs t.readTimeout t.peerDiscoveryWait t.peerWaitCap
  let noSeederWait := min t.readTimeout t.noSeederReadTimeout
  match read.phase with
  | .waitState => t.readTimeout
  | .recheck => t.readTimeout + recheckWait
  | .peerWait => t.readTimeout + recheckWait + peerWait
  | .pieceWait => t.readTimeout + recheckWait + peerWait + noSeederWait +
      if read.hasSeeder then t.readTimeout else 0

variable {t : Timeouts} {read read' : PendingRead}

lemma pieceWaitWindowSecs_le (t : Timeouts) (hasSeeder isPeerWaitExhausted : Bool) :
    pieceWaitWindowSecs hasSeeder isPeerWaitExhausted t.readTimeout t.noSeederReadTimeout ≤
      min t.readTimeout t.noSeederReadTimeout + if hasSeeder then t.readTimeout else 0 := by
  unfold pieceWaitWindowSecs
  cases hasSeeder with
  | true =>
    simp only [if_true]
    omega
  | false =>
    simp only [false_eq_true, if_false, Nat.add_zero]
    split
    · exact Nat.zero_le _
    · exact le_rfl

lemma bound_add_window_le (h : read.phase.rank < read'.phase.rank) :
    t.bound read + t.window read' ≤ t.bound read' := by
  have hpiece := pieceWaitWindowSecs_le t read'.hasSeeder read'.isPeerWaitExhausted
  unfold bound window
  cases hphase : read.phase <;> cases hphase' : read'.phase <;>
    rw [hphase, hphase'] at h <;> simp only [ReadPhase.rank] at h ⊢ <;> omega

lemma window_le_bound (t : Timeouts) (read : PendingRead) : t.window read ≤ t.bound read := by
  have hpiece := pieceWaitWindowSecs_le t read.hasSeeder read.isPeerWaitExhausted
  unfold bound window
  cases read.phase <;> dsimp only <;> omega

lemma bound_add_grant_le (hturn : Turn read read')
    (hforward : read.phase = .pieceWait → read'.phase = .pieceWait) :
    t.bound read + t.grant read read' ≤ t.bound read' := by
  unfold grant
  cases hturn with
  | stay hphase hseeder =>
    rw [if_pos ⟨hphase, hseeder⟩]
    unfold bound
    rw [hphase, hseeder]
    exact le_rfl
  | enter hlater =>
    rw [if_neg fun hsame => absurd hlater (by rw [hsame.1]; exact lt_irrefl _)]
    exact bound_add_window_le hlater
  | seeder hphase hphase' hseeder hseeder' =>
    rw [if_neg fun hsame => by rw [hseeder, hseeder'] at hsame; cases hsame.2]
    unfold bound window pieceWaitWindowSecs
    rw [hphase, hphase', hseeder, hseeder']
    simp only [false_eq_true, if_false, if_true]
    omega
  | recheck hphase hphase' =>
    rw [hforward hphase] at hphase'
    cases hphase'

lemma bound_le_budget (ht : t.readTimeout ≤ 86400) (read : PendingRead) :
    t.bound read ≤ t.budget := by
  have hpeer : peerDiscoveryWindowSecs t.readTimeout t.peerDiscoveryWait t.peerWaitCap ≤
      t.readTimeout := by
    cases t.peerWaitCap with
    | none => exact Nat.min_le_left _ _
    | some cap => exact (Nat.min_le_left _ _).trans (Nat.min_le_left _ _)
  have hmax : 500000 ≤ u64Max := by decide
  have hbudget : t.budget = t.readTimeout + min t.readTimeout recheckWaitCapSecs +
      peerDiscoveryWindowSecs t.readTimeout t.peerDiscoveryWait t.peerWaitCap +
      min t.readTimeout t.noSeederReadTimeout + t.readTimeout := by
    unfold budget readWaitBudgetSecs
    dsimp only
    rw [satAddU64_of_le (a := t.readTimeout) (by omega), satAddU64_of_le (a := _ + _) (by omega),
      satAddU64_of_le (a := _ + _ + _) (by omega), satAddU64_of_le (by omega)]
  rw [hbudget]
  unfold bound
  cases read.phase with
  | pieceWait =>
    dsimp only
    split <;> omega
  | waitState | recheck | peerWait =>
    dsimp only
    omega

end Timeouts

/-! ### The piece wait without stale pieces -/

namespace EngineState

lemma phase_awaitPiece (s : EngineState) (read : PendingRead) (piece : ℤ) :
    (s.awaitPiece read piece).read.phase = read.phase := by
  unfold awaitPiece
  obtain ⟨t, hnote, -⟩ | ⟨t, status, now, -, -, hnote⟩ := noteSeeder_cases s read <;>
  · rw [hnote]
    dsimp only
    split <;> rfl

lemma phase_pollPieces (pieces : List ℤ) : ∀ (s : EngineState) (read : PendingRead),
      (∀ n, ∀ piece ∈ pieces, (s.outside n).havePiece piece = true →
        (s.outside n).hasStalePiece piece = true → (s.outside n).isPieceComplete piece = true) →
      (s.pollPieces read pieces).read.phase = read.phase := by
  induction pieces with
  | nil => exact fun s read _ => rfl
  | cons piece rest ih =>
    intro s read hfresh
    unfold pollPieces
    dsimp only
    split
    · -- the answers to the rest are those after the first
      refine ih s.ask.2 { read with currentPiece := read.currentPiece + 1 }
        fun n piece' hpiece' => ?_
      exact hfresh (n + 1) piece' (mem_cons_of_mem _ hpiece')
    · next hmissing =>
      have hnotStale : ¬(decide (read.infoHash ∈ s.ask.2.handles) && s.ask.1.havePiece piece &&
          s.ask.1.hasStalePiece piece) = true := by
        intro hstale
        simp only [and_eq_true] at hstale
        refine hmissing ?_
        rw [or_eq_true]
        exact .inr (hfresh 0 piece mem_cons_self hstale.1.2 hstale.2)
      rw [if_neg hnotStale]
      exact phase_awaitPiece _ read piece

end EngineState

variable {w : Waiting} {s : EngineState}

lemma phase_of_noStalePiece {p : Polled} (h : NoStalePiece w s)
    (hpoll : s.pollRead w.read = some p) (hphase : w.read.phase = .pieceWait) :
    p.read.phase = .pieceWait := by
  have hfresh := h hphase
  unfold EngineState.pollRead at hpoll
  split at hpoll
  · rw [hphase] at hpoll
    cases hpoll
    unfold EngineState.pollPieceWait
    dsimp only
    split
    · exact hphase
    · refine Eq.trans ?_ hphase
      exact EngineState.phase_pollPieces _ _ _ fun n => hfresh (n + 1)
  · cases hpoll
    exact hphase

/-! ### Runs -/

/-- What has been granted is within the bound of the phase. -/
def WithinBound (t : Timeouts) (w : Waiting) : Prop := w.granted ≤ t.bound w.read

lemma WithinBound.waitStep {t : Timeouts} {w' : Waiting}
    (h : WithinBound t w) (hfresh : NoStalePiece w s) (hstep : waitStep t w s = some w') :
    WithinBound t w' := by
  unfold Download.waitStep at hstep
  split at hstep
  · obtain ⟨p, hp, rfl⟩ := Option.map_eq_some_iff.mp hstep
    have hgrant := Timeouts.bound_add_grant_le (t := t) (EngineState.pollRead_stepped hp).turn
      (phase_of_noStalePiece hfresh hp)
    exact (Nat.add_le_add_right h _).trans hgrant
  · cases hstep

lemma withinBound_of_admission {t : Timeouts} {prepared : PreparedRead}
    {reply : ℕ} (h : admission t s prepared reply = some w) : WithinBound t w := by
  unfold admission at h
  split at h
  · obtain ⟨s', -, hparked⟩ := Option.bind_eq_some_iff.mp h
    obtain ⟨read, -, rfl⟩ := Option.map_eq_some_iff.mp hparked
    exact t.window_le_bound read
  · cases h

/-- The windows granted to a read that meets no stale piece in its piece wait stay within the
budget, for every configuration that is accepted and whatever the outside answers. -/
theorem granted_le_budget {c : Config.TimeoutsConfig} (hconfig : c.validate = .ok ())
    {s : EngineState} {prepared : PreparedRead} {reply : ℕ} {w₀ w : Waiting}
    {states : List EngineState} (hadmission : admission (.ofConfig c) s prepared reply = some w₀)
    (hrun : Run.runFrom (waitStep (.ofConfig c)) w₀ states = some w)
    (hfresh : Run.Along (waitStep (.ofConfig c)) NoStalePiece w₀ states) :
    w.granted ≤ (Timeouts.ofConfig c).budget := by
  have hbound : WithinBound (.ofConfig c) w :=
    Run.invariant_of_run_along (fun _ _ _ h hf hs => WithinBound.waitStep h hf hs)
      (withinBound_of_admission hadmission) hfresh hrun
  exact hbound.trans
    (Timeouts.bound_le_budget (Config.TimeoutsConfig.resolvedReadTimeoutSecs_le hconfig) w.read)

/-! ### A read of one torrent -/

def seededAnswers (second : ℕ) (stale : Bool) : Answers :=
  { EngineState.sampleAnswers with
    now := secs second
    status := .ok ⟨.downloading, 1, 1⟩
    havePiece := fun _ => stale
    forceRecheck := true
    hasStalePiece := fun _ => stale }

def defaultEngine : EngineState :=
  .new EngineState.sampleConfig 8 60 30 none 15 fun _ => seededAnswers 0 false

def engineAt (second : ℕ) (stale : Bool) : EngineState :=
  { (defaultEngine.ensureHandle EngineState.sampleInfo).1 with
    outside := fun _ => seededAnswers second stale }

def firstPieceRead : PreparedRead :=
  ⟨EngineState.sampleInfo, 0, 0, ['a'], EngineState.firstPiece, ⟨.downloading, 1, 1⟩⟩

theorem granted_firstPieceRead :
    ∃ w₀ w, admission (.ofConfig {}) (engineAt 0 false) firstPieceRead 0 = some w₀ ∧
      Run.runFrom (waitStep (.ofConfig {})) w₀ [engineAt 30 false, engineAt 60 false] = some w ∧
      w.ended = true ∧ w.granted = 60 ∧ w.granted ≤ (Timeouts.ofConfig {}).budget := by
  obtain ⟨w₀, hw₀, w, hw, hended, hgranted⟩ :
      ∃ w₀, admission (.ofConfig {}) (engineAt 0 false) firstPieceRead 0 = some w₀ ∧
        ∃ w, Run.runFrom (waitStep (.ofConfig {})) w₀ [engineAt 30 false, engineAt 60 false] =
          some w ∧ w.ended = true ∧ w.granted = 60 := by decide +kernel
  refine ⟨w₀, w, hw₀, hw, hended, hgranted, granted_le_budget (by rfl) hw₀ hw ?_⟩
  -- no handle ever says that it has a piece
  have hnone : ∀ w second, NoStalePiece w (engineAt second false) := fun w second _ n piece _ h =>
    absurd h Bool.false_ne_true
  exact ⟨hnone _ _, fun _ _ => ⟨hnone _ _, fun _ _ => trivial⟩⟩

def staleIterations : List Iteration :=
  ⟨.command (.readFileRange EngineState.sampleInfo 0 0 4), [], fun _ => seededAnswers 0 false⟩ ::
    [(59, true), (69, false), (128, true), (138, false), (197, false)].map fun at' =>
      ⟨.timeout, [], fun _ => seededAnswers at'.1 at'.2⟩

/-- With the default timeouts the budget is 175 seconds. A read whose piece goes stale twice is
granted three piece waits and two rechecks, 200 seconds, and the engine still has it parked 197
seconds after it came. -/
theorem stale_pieces_exceed_budget :
    Config.TimeoutsConfig.validate {} = .ok () ∧ (Timeouts.ofConfig {}).budget = 175 ∧
    (∃ w₀ w, admission (.ofConfig {}) (engineAt 0 false) firstPieceRead 0 = some w₀ ∧
      Run.runFrom (waitStep (.ofConfig {})) w₀ [engineAt 59 true, engineAt 69 false,
        engineAt 128 true, engineAt 138 false, engineAt 197 false] = some w ∧
      w.ended = false ∧ w.granted = 200) ∧
    ∃ s, Run.runFrom EngineState.step defaultEngine staleIterations = some s ∧
      s.replies.length = 0 ∧ s.accepted = 1 ∧
      s.pendingReads.map (fun read => (read.reply, read.waitingSince)) = [(0, 0)] ∧
      (s.outside 0).now = secs 197 := by
  obtain ⟨w₀, hw₀, w, hw, hgranted⟩ :
      ∃ w₀, admission (.ofConfig {}) (engineAt 0 false) firstPieceRead 0 = some w₀ ∧
        ∃ w, Run.runFrom (waitStep (.ofConfig {})) w₀ [engineAt 59 true, engineAt 69 false,
          engineAt 128 true, engineAt 138 false, engineAt 197 false] = some w ∧
          w.ended = false ∧ w.granted = 200 := by decide +kernel
  exact ⟨by rfl, by decide, ⟨w₀, w, hw₀, hw, hgranted⟩, by decide +kernel⟩

end TorrentFs.Download
