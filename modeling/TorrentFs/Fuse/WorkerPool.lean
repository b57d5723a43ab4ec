import TorrentFs.Fuse.PendingReads

/-!
# The download worker pool

A fixed number of threads take jobs from a bounded channel. A call of `submit` that waits for room
holds the mutex of the sender, and so does the shutdown that drops the sender: it waits for the
call, and the call waits for a worker. No job is lost, run twice or overtaken, and the threads never
wait for each other in a circle: they wait for the end of a job. That a job ends is up to the job,
so its end is an action of the outside here.
-/

namespace TorrentFs.Fuse

variable {ι : Type*}

/-- Where a thread is in `worker_loop`: before the mutex of the receiver, in `recv` with the mutex
held, in a job, or behind the loop. A job that panics ends like any other. -/
inductive Worker (ι : Type*)
  | idle
  | receiving
  | running (job : ι)
  | exited
deriving DecidableEq

def Worker.job? : Worker ι → Option ι
  | .running job => some job
  | _ => none

def Worker.isReceiving : Worker ι → Bool
  | .receiving => true
  | _ => false

def Worker.hasExited : Worker ι → Bool
  | .exited => true
  | _ => false

def Worker.load : Worker ι → ℕ
  | .idle => 2
  | .receiving => 1
  | .running _ => 3
  | .exited => 0

/-- A call of `submit`, or of `try_submit` when it does not block. -/
structure Submission (ι : Type*) where
  job : ι
  isBlocking : Bool

/-- The pool and its callers, with the calls it refused and what became of the jobs it took. -/
structure WorkerPool (ι : Type*) where
  stopping : Bool
  /-- The sender has not been dropped. -/
  tx : Bool
  /-- The calls that have read `stopping` and wait for the mutex of the sender. -/
  callers : List (Submission ι)
  /-- The job of the call that holds the mutex in `send`. -/
  sending : Option ι
  queue : List ι
  workers : List (Worker ι)
  rejected : List (Submission ι)
  accepted : List ι
  taken : List ι
  done : List ι

inductive PoolAction (ι : Type*)
  | submit (call : Submission ι)
  | stop
  | lock (i : ℕ)
  | send
  | dropSender
  /-- The next step of a worker in its loop. -/
  | work (w : ℕ)
  /-- The job of a worker returns or panics. -/
  | finish (w : ℕ)

/-- The steps that end what was begun: all but new calls. -/
def PoolAction.IsProgress : PoolAction ι → Prop
  | .submit _ | .stop => False
  | _ => True

/-- The steps that the threads and the begun calls take by themselves. -/
def PoolAction.IsInternal (a : PoolAction ι) : Prop := a.IsProgress ∧ ∀ w, a ≠ .finish w

namespace WorkerPool

def new (workers : ℕ) : WorkerPool ι :=
  ⟨false, true, [], none, [], .replicate workers .idle, [], [], [], []⟩

def reject (s : WorkerPool ι) (call : Submission ι) : WorkerPool ι :=
  { s with rejected := call :: s.rejected }

def accept (s : WorkerPool ι) (job : ι) : WorkerPool ι :=
  { s with queue := s.queue ++ [job], accepted := s.accepted ++ [job] }

/-- No receiver is left: every worker is behind its loop. -/
def disconnected (s : WorkerPool ι) : Bool := s.workers ≠ [] && s.workers.all Worker.hasExited

/-- A call that gets the mutex: it is refused, waits in `send`, or `try_send` answers at once. -/
def locked (queueDepth : ℕ) (s : WorkerPool ι) (call : Submission ι) : WorkerPool ι :=
  if s.tx = false then s.reject call
  else if call.isBlocking then { s with sending := some call.job }
  else if s.disconnected then s.reject call
  else if s.queue.length < queueDepth then s.accept call.job
  else s.reject call

def step (queueDepth : ℕ) (s : WorkerPool ι) : PoolAction ι → Option (WorkerPool ι)
  | .submit call =>
    some (if s.stopping then s.reject call else { s with callers := s.callers ++ [call] })
  | .stop => some { s with stopping := true }
  | .lock i =>
    if s.sending.isNone then
      s.callers[i]?.map ({ s with callers := s.callers.eraseIdx i }.locked queueDepth)
    else none
  | .send =>
    match s.sending with
    | some job =>
      if s.disconnected then some ({ s with sending := none }.reject ⟨job, true⟩)
      else if s.queue.length < queueDepth then some ({ s with sending := none }.accept job)
      else none
    | none => none
  | .dropSender =>
    if s.stopping ∧ s.tx ∧ s.sending.isNone then some { s with tx := false } else none
  | .work w =>
    match s.workers[w]? with
    | some .idle =>
      if s.workers.any Worker.isReceiving then none
      else some { s with workers := s.workers.set w .receiving }
    | some .receiving =>
      match s.queue with
      | job :: queue =>
        some { s with queue, workers := s.workers.set w (.running job), taken := s.taken ++ [job] }
      | [] => if s.tx then none else some { s with workers := s.workers.set w .exited }
    | some (.running _) | some .exited | none => none
  | .finish w =>
    match s.workers[w]? with
    | some (.running job) =>
      some { s with workers := s.workers.set w .idle, done := s.done ++ [job] }
    | _ => none

def inJobs (s : WorkerPool ι) : List ι := s.workers.filterMap Worker.job?

/-- The steps that are left to do for what has been handed to the pool. -/
def load (s : WorkerPool ι) : ℕ :=
  6 * s.callers.length + 5 * s.sending.toList.length + 4 * s.queue.length +
    (s.workers.map Worker.load).sum + s.tx.toNat

/-- No job is lost or doubled, and the pool closes only when told. -/
structure Sound (n queueDepth : ℕ) (s : WorkerPool ι) : Prop where
  workers : s.workers.length = n
  room : s.queue.length ≤ queueDepth
  fifo : s.accepted = s.taken ++ s.queue
  kept : s.taken.Perm (s.done ++ s.inJobs)
  refused : ∀ call ∈ s.rejected, call.isBlocking = true → s.stopping = true
  closed : s.tx = false → s.stopping = true ∧ s.sending = none
  left : .exited ∈ s.workers → s.tx = false ∧ s.queue = []

variable {n queueDepth : ℕ} {s t : WorkerPool ι} {a : PoolAction ι}

lemma sound_new : (new n : WorkerPool ι).Sound n queueDepth := by
  constructor <;> simp [new, inJobs, Worker.job?]

lemma Sound.setWorker (h : s.Sound n queueDepth) {w : ℕ} {old next : Worker ι}
    (hw : s.workers[w]? = some old) {queue taken done : List ι} (hroom : queue.length ≤ queueDepth)
    (hfifo : s.accepted = taken ++ queue)
    (hkept : ∀ inJobs, s.taken.Perm (s.done ++ (old.job?.toList ++ inJobs)) →
      taken.Perm (done ++ (next.job?.toList ++ inJobs)))
    (hleft : next = .exited ∨ .exited ∈ s.workers → s.tx = false ∧ queue = [])
    (hload : 4 * queue.length + next.load < 4 * s.queue.length + old.load) :
    { s with workers := s.workers.set w next, queue, taken, done }.Sound n queueDepth ∧
      { s with workers := s.workers.set w next, queue, taken, done }.load < s.load := by
  obtain ⟨l₁, l₂, hl, -, hset⟩ := PendingReads.exists_split hw
  have hjobs : ∀ v : Worker ι, ((l₁ ++ v :: l₂).filterMap Worker.job?).Perm
      (v.job?.toList ++ (l₁ ++ l₂).filterMap Worker.job?) := by
    intro v
    refine (List.perm_middle.filterMap _).trans ?_
    cases hv : v.job? <;> simp [hv]
  refine ⟨⟨by simp [h.workers], hroom, hfifo, ?_, h.refused, h.closed, fun hexited => ?_⟩, ?_⟩
  · have hold := h.kept
    unfold inJobs at hold ⊢
    rw [hl] at hold
    dsimp only
    rw [hset]
    exact (hkept _ (hold.trans ((hjobs old).append_left _))).trans ((hjobs next).symm.append_left _)
  · rw [hset] at hexited
    grind
  · simp only [load, hset]
    simp only [hl, List.map_append, List.map_cons, List.sum_append, List.sum_cons]
    omega

lemma Sound.work (h : s.Sound n queueDepth) {w : ℕ} (hstep : s.step queueDepth (.work w) = some t) :
    t.Sound n queueDepth ∧ t.load < s.load := by
  simp only [WorkerPool.step] at hstep
  split at hstep
  · next hw =>
    obtain ⟨-, heq⟩ := Option.ite_none_left_eq_some.mp hstep
    cases heq
    exact h.setWorker hw h.room h.fifo (fun _ hperm => hperm)
      (fun hleft => h.left (hleft.resolve_left nofun)) (by simp [Worker.load])
  · next hw =>
    split at hstep
    · next job queue hqueue =>
      cases hstep
      have hfifo := h.fifo
      have hroom := h.room
      rw [hqueue] at hfifo hroom
      refine h.setWorker hw (Nat.le_of_succ_le hroom) ?_ ?_ (fun hleft => ?_) ?_
      · rw [hfifo, List.append_assoc, List.singleton_append]
      · intro inJobs hperm
        have hperm := hperm.append_right [job]
        rw [List.append_assoc] at hperm
        exact hperm.trans (List.perm_append_comm.append_left _)
      · cases hqueue.symm.trans (h.left (hleft.resolve_left nofun)).2
      · simp only [Worker.load, hqueue, List.length_cons]
        omega
    · next hqueue =>
      obtain ⟨htx, heq⟩ := Option.ite_none_left_eq_some.mp hstep
      cases heq
      exact h.setWorker hw h.room h.fifo (fun _ hperm => hperm)
        (fun _ => ⟨Bool.eq_false_of_not_eq_true htx, hqueue⟩) (by simp [Worker.load])
  · cases hstep
  · cases hstep
  · cases hstep

lemma Sound.finish (h : s.Sound n queueDepth) {w : ℕ}
    (hstep : s.step queueDepth (.finish w) = some t) : t.Sound n queueDepth ∧ t.load < s.load := by
  simp only [WorkerPool.step] at hstep
  split at hstep
  · next job hw =>
    cases hstep
    refine h.setWorker hw h.room h.fifo (fun inJobs hperm => ?_)
      (fun hleft => h.left (hleft.resolve_left nofun)) (by simp [Worker.load])
    simpa [Worker.job?] using hperm
  · cases hstep

/-- While the sender is there no worker leaves its loop, so that `send` does not fail. -/
lemma Sound.connected (h : s.Sound n queueDepth) (htx : s.tx = true) : s.disconnected = false := by
  by_contra hgone
  obtain ⟨hne, hall⟩ : s.workers ≠ [] ∧ s.workers.all Worker.hasExited = true := by
    simpa [disconnected] using hgone
  obtain ⟨v, hv⟩ := List.exists_mem_of_ne_nil _ hne
  cases v with
  | exited => cases htx.symm.trans (h.left hv).1
  | _ => cases List.all_eq_true.mp hall _ hv

lemma Sound.frame (h : s.Sound n queueDepth) {stopping tx : Bool} {callers : List (Submission ι)}
    {sending : Option ι} (hstop : s.stopping = true → stopping = true)
    (htx : s.tx = false → tx = false) (hclosed : tx = false → stopping = true ∧ sending = none) :
    { s with stopping, tx, callers, sending }.Sound n queueDepth :=
  ⟨h.workers, h.room, h.fifo, h.kept, fun call hcall hwaits => hstop (h.refused call hcall hwaits),
    hclosed, fun hexited => (h.left hexited).imp_left htx⟩

lemma Sound.reject (h : s.Sound n queueDepth) {call : Submission ι}
    (hcall : call.isBlocking = true → s.stopping = true) : (s.reject call).Sound n queueDepth :=
  ⟨h.workers, h.room, h.fifo, h.kept, List.forall_mem_cons.mpr ⟨hcall, h.refused⟩, h.closed, h.left⟩

lemma Sound.accept (h : s.Sound n queueDepth) (htx : s.tx = true) {job : ι}
    (hroom : s.queue.length < queueDepth) : (s.accept job).Sound n queueDepth := by
  refine ⟨h.workers, ?_, ?_, h.kept, h.refused, h.closed, fun hexited => ?_⟩
  · rwa [WorkerPool.accept, List.length_append]
  · simp [WorkerPool.accept, h.fifo]
  · cases htx.symm.trans (h.left hexited).1

/-- What a step keeps. A step that is not a new call brings the calls and jobs nearer to their
end. -/
lemma Sound.step (h : s.Sound n queueDepth) (hstep : s.step queueDepth a = some t) :
    t.Sound n queueDepth ∧ (a.IsProgress → t.load < s.load) := by
  cases a with
  | submit call =>
    cases hstep
    refine ⟨?_, nofun⟩
    split_ifs with hstop
    · exact h.reject fun _ => hstop
    · exact h.frame id id h.closed
  | stop =>
    cases hstep
    exact ⟨h.frame (fun _ => rfl) id fun htx => ⟨rfl, (h.closed htx).2⟩, nofun⟩
  | lock i =>
    simp only [WorkerPool.step, Option.ite_none_right_eq_some, Option.map_eq_some_iff] at hstep
    obtain ⟨hfree, call, hcall, rfl⟩ := hstep
    have hlen := List.length_eraseIdx_add_one (List.getElem?_eq_some_iff.mp hcall).1
    have hsound : { s with callers := s.callers.eraseIdx i }.Sound n queueDepth :=
      h.frame id id h.closed
    unfold WorkerPool.locked
    split_ifs with htx hwaits hgone hroom <;>
      refine ⟨?_, fun _ => by grind [load, WorkerPool.reject, WorkerPool.accept]⟩
    · exact hsound.reject fun _ => (h.closed htx).1
    · exact h.frame id id fun hclosed => absurd hclosed htx
    · exact hsound.reject fun hblock => absurd hblock hwaits
    · exact hsound.accept (Bool.eq_true_of_not_eq_false htx) hroom
    · exact hsound.reject fun hblock => absurd hblock hwaits
  | send =>
    simp only [WorkerPool.step] at hstep
    split at hstep
    · next job hjob =>
      have htx : s.tx = true :=
        Bool.eq_true_of_not_eq_false fun htx => nomatch hjob.symm.trans (h.closed htx).2
      rw [h.connected htx] at hstep
      obtain ⟨hroom, heq⟩ := Option.ite_none_right_eq_some.mp hstep
      cases heq
      exact ⟨Sound.accept (h.frame id id fun htx => ⟨(h.closed htx).1, rfl⟩) htx hroom,
        fun _ => by grind [load, WorkerPool.accept]⟩
    · cases hstep
  | dropSender =>
    simp only [WorkerPool.step, Option.ite_none_right_eq_some, Option.isNone_iff_eq_none,
      Option.some.injEq] at hstep
    obtain ⟨⟨hstop, htx, hfree⟩, rfl⟩ := hstep
    exact ⟨h.frame id (fun _ => rfl) fun _ => ⟨hstop, hfree⟩, fun _ => by grind [load]⟩
  | work w =>
    obtain ⟨hsound, hload⟩ := h.work hstep
    exact ⟨hsound, fun _ => hload⟩
  | finish w =>
    obtain ⟨hsound, hload⟩ := h.finish hstep
    exact ⟨hsound, fun _ => hload⟩

/-- Nothing is left to do: every call is answered and every accepted job done, and after a shutdown
every worker is gone. -/
structure Settled (s : WorkerPool ι) : Prop where
  answered : s.callers = [] ∧ s.sending = none
  done : s.accepted.Perm s.done
  gone : s.stopping = true → ∀ w ∈ s.workers, w = .exited

/-- Every worker is in a job. -/
def Busy (s : WorkerPool ι) : Prop := ∀ w ∈ s.workers, ∃ job, w = .running job

section Stuck

variable (hstuck : ∀ a : PoolAction ι, a.IsInternal → s.step queueDepth a = none)
include hstuck

lemma waits_of_stuck {v : Worker ι} (hv : v ∈ s.workers) (hidle : v = .idle ∨ v = .receiving) :
    s.queue = [] ∧ s.tx = true := by
  have hnone : ∀ v ∈ s.workers, ∃ w, s.workers[w]? = some v ∧
      s.step queueDepth (.work w) = none := by
    intro v hmem
    obtain ⟨w, hw⟩ := List.mem_iff_getElem?.mp hmem
    exact ⟨w, hw, hstuck _ ⟨trivial, nofun⟩⟩
  have hreceiving : .receiving ∈ s.workers → s.queue = [] ∧ s.tx = true := by
    grind [WorkerPool.step]
  obtain rfl | rfl := hidle
  · -- the mutex of the receiver is not free, so another worker is in `recv`
    obtain ⟨w, hw, hnone⟩ := hnone _ hv
    have hlock : s.workers.any Worker.isReceiving = true := by
      simpa [WorkerPool.step, hw] using hnone
    obtain ⟨v, hv, hrec⟩ := List.any_eq_true.mp hlock
    cases v with
    | receiving => exact hreceiving hv
    | _ => cases hrec
  · exact hreceiving hv

variable (h : s.Sound n queueDepth)
include h

lemma Sound.busy (hqueue : s.queue ≠ []) : s.Busy := by
  intro v hv
  cases v with
  | running job => exact ⟨job, rfl⟩
  | exited => exact absurd (h.left hv).2 hqueue
  | idle => exact absurd (waits_of_stuck hstuck hv (.inl rfl)).1 hqueue
  | receiving => exact absurd (waits_of_stuck hstuck hv (.inr rfl)).1 hqueue

/-- A call that cannot go on waits for room in the channel. -/
lemma Sound.answered (hdepth : 0 < queueDepth) (hqueue : s.queue = []) :
    s.callers = [] ∧ s.sending = none := by
  have hsending : s.sending = none := by
    by_contra hsome
    obtain ⟨job, hjob⟩ := Option.ne_none_iff_exists'.mp hsome
    have htx : s.tx = true := Bool.eq_true_of_not_eq_false fun htx => hsome (h.closed htx).2
    simpa [WorkerPool.step, hjob, hqueue, hdepth.ne', h.connected htx] using
      hstuck .send ⟨trivial, nofun⟩
  refine ⟨?_, hsending⟩
  cases hcalls : s.callers with
  | nil => rfl
  | cons call rest =>
    simpa [WorkerPool.step, hsending, hcalls] using hstuck (.lock 0) ⟨trivial, nofun⟩

lemma Sound.settled (hn : 0 < n) (hdepth : 0 < queueDepth) (hjobs : s.inJobs = []) :
    s.Settled := by
  have hrunning : ∀ job, .running job ∉ s.workers := by
    intro job hmem
    cases List.filterMap_eq_nil_iff.mp hjobs _ hmem
  have hqueue : s.queue = [] := by
    by_contra hne
    obtain ⟨v, hv⟩ := List.exists_mem_of_length_pos (h.workers ▸ hn)
    obtain ⟨job, rfl⟩ := h.busy hstuck hne v hv
    exact hrunning job hv
  have hanswered := h.answered hstuck hdepth hqueue
  refine ⟨hanswered, ?_, fun hstop v hv => ?_⟩
  · have hkept := h.kept
    rwa [hjobs, List.append_nil, ← List.append_nil s.taken, ← hqueue, ← h.fifo] at hkept
  · have htx : s.tx = false := by
      simpa [WorkerPool.step, hstop, hanswered.2] using hstuck .dropSender ⟨trivial, nofun⟩
    cases v with
    | exited => rfl
    | running job => exact absurd hv (hrunning job)
    | idle => cases htx.symm.trans (waits_of_stuck hstuck hv (.inl rfl)).2
    | receiving => cases htx.symm.trans (waits_of_stuck hstuck hv (.inr rfl)).2

end Stuck

section Runs

variable {as : List (PoolAction ι)} (hrun : Run.runFrom (step queueDepth) (new n) as = some s)
include hrun

lemma sound_of_run : s.Sound n queueDepth :=
  Run.invariant_of_run (fun _ _ _ h hstep => (h.step hstep).1) sound_new hrun

/-- In every interleaving of calls, workers and a shutdown the accepted jobs are taken in their
order, and each that was taken is in one worker or done. The channel and the jobs in work stay
within their bounds, and a call that may wait is refused only for a shutdown. -/
theorem jobs_of_run : s.accepted = s.taken ++ s.queue ∧ s.taken.Perm (s.done ++ s.inJobs) ∧
    s.queue.length ≤ queueDepth ∧ s.inJobs.length ≤ n ∧
    ∀ call ∈ s.rejected, call.isBlocking = true → s.stopping = true := by
  have h := sound_of_run hrun
  exact ⟨h.fifo, h.kept, h.room, h.workers ▸ List.length_filterMap_le _ _, h.refused⟩

end Runs

/-- Two calls and a shutdown of a pool with one worker and room for one job. -/
def twoCalls : List (PoolAction ℕ) :=
  [.submit ⟨1, true⟩, .submit ⟨2, false⟩, .lock 0, .send, .lock 0, .stop, .work 0, .work 0,
    .finish 0, .dropSender, .work 0, .work 0]

theorem jobs_of_twoCalls : ∃ s, Run.runFrom (step 1) (new 1) twoCalls = some s ∧
    s.accepted = s.taken ++ s.queue ∧ s.rejected.length = 1 := by
  obtain ⟨s, hs, hrejected⟩ : ∃ s, Run.runFrom (step 1) (new 1) twoCalls = some s ∧
    s.rejected.length = 1 := by decide
  exact ⟨s, hs, (jobs_of_run hs).1, hrejected⟩

/-- A third call waits in `send`, with the worker in the first job, a full queue, and the shutdown
behind the call. -/
def waitingCall : List (PoolAction ℕ) :=
  [.submit ⟨1, true⟩, .lock 0, .send, .work 0, .work 0, .submit ⟨2, true⟩, .lock 0, .send,
    .submit ⟨3, true⟩, .lock 0, .stop]

end WorkerPool

end TorrentFs.Fuse
