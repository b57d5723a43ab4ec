import TorrentFs.Fuse.PendingTable
import TorrentFs.Lib.Run

/-!
# Deferred reads and their replies

The threads that share the table of deferred reads: the readers that enter it, the workers that
resolve a ticket, `unlink` that cancels, and the deadline checker. Each takes the lock of the table
for one step; the replies it takes out are resolved, the readers that sleep are notified and the
gauge of pending reads is lowered in later steps, with any other step in between.

Replies are numbered in the order of their reads. A *lead* is a call of `insert` that returns
`Leader`; leads are numbered as well, which tells two groups of one range apart. The numbers of the
leads are not in the program: its tickets are machine words, and come round after `2 ^ 64` leads.
-/

namespace TorrentFs.Fuse

open Text Word List Option Function FinMap PendingTable Nat

/-- A read that is counted and has not come out of `insert`. -/
structure Entering where
  entry : PendingEntry ℕ
  key : RangeKey
  isAsleep : Bool

/-- The duty of the caller that leads: to read the range and to resolve the ticket. -/
structure Job where
  ticket : ℕ
  key : RangeKey
  lead : ℕ

inductive Cause where
  | resolution (job : Job) (result : Except ℤ (List UInt8))
  | cancelled
  | expired

structure Consumed where
  reply : ℕ
  answer : Answer
  cause : Cause

/-- What a step that took replies out of the table still has to do, in this order: resolve the
replies, notify the readers that sleep, lower the gauge. -/
structure Resolver where
  replies : List Consumed
  notifies : Bool
  decrements : List ℕ

/-- A call of `insert` that returned. -/
structure Insertion where
  reply : ℕ
  key : RangeKey
  lead : ℕ

def Job.answer (job : Job) : Except ℤ (List UInt8) → Answer
  | .ok data => if data.isEmpty ∧ 0 < job.key.size then .error enodata else .data data
  | .error errno => .error errno

/-- The table, the gauge `pending_reads_current`, and the steps in progress. The last five fields
record the run: the reads so far, the leads so far and the last one of each range, the insertions,
and the replies that were resolved. -/
structure PendingReads where
  table : PendingTable ℕ
  gauge : ℕ
  entering : List Entering
  jobs : List Job
  resolvers : List Resolver
  panicked : Bool
  deferred : ℕ
  leads : ℕ
  lastLead : FinMap RangeKey ℕ
  inserted : List Insertion
  consumed : List Consumed

inductive Action where
  /-- `read` counts a deferred read and calls `insert`. -/
  | defer (torrentId : ℤ) (deadline : ℕ) (key : RangeKey)
  /-- A pass of the loop of `insert`, by a reader that does not sleep. -/
  | insert (i : ℕ)
  /-- A reader wakes up without a notification. -/
  | wake (i : ℕ)
  /-- A ticket is resolved, by its worker or because no worker takes it. -/
  | finish (j : ℕ) (result : Except ℤ (List UInt8))
  /-- `cancel_by_torrent_id`, meeting the groups in the order `ids`. -/
  | cancel (torrentId : ℤ) (ids : List ℕ)
  /-- `expire`, meeting the groups in the order `ids`. -/
  | expire (now : ℕ) (ids : List ℕ)
  /-- The next thing a resolver has to do. -/
  | advance (k : ℕ)

namespace PendingReads

def new : PendingReads where
  table := PendingTable.new
  gauge := 0
  entering := []
  jobs := []
  resolvers := []
  panicked := false
  deferred := 0
  leads := 0
  lastLead := FinMap.empty
  inserted := []
  consumed := []

def insertAt (s : PendingReads) (i : ℕ) (e : Entering) : PendingReads :=
  match s.table.insertOnce e.entry e.key with
  | .panicked => { s with entering := s.entering.eraseIdx i, panicked := true }
  | .full => { s with entering := s.entering.set i { e with isAsleep := true } }
  | .done table .joined =>
    { s with
      table
      entering := s.entering.eraseIdx i
      inserted := s.inserted ++ [⟨e.entry.reply, e.key, (s.lastLead.get e.key).getD 0⟩] }
  | .done table (.leader id) =>
    { s with
      table
      entering := s.entering.eraseIdx i
      jobs := s.jobs ++ [⟨id, e.key, s.leads⟩]
      leads := s.leads + 1
      lastLead := s.lastLead.insert e.key s.leads
      inserted := s.inserted ++ [⟨e.entry.reply, e.key, s.leads⟩] }

/-- A ticket is resolved with the result of its range; the gauge is lowered by the number of
waiters at once. -/
def finishJob (s : PendingReads) (job : Job) (result : Except ℤ (List UInt8)) : PendingReads :=
  let (table, replies) := match result with
    | .ok data => s.table.resolveOrEnodata job.ticket data job.key.size
    | .error errno => s.table.resolveError job.ticket errno
  let consumed := (replies.getD []).map fun r => ⟨r.1, r.2, .resolution job result⟩
  { s with
    table
    resolvers := s.resolvers ++ [⟨consumed, replies.isSome, [consumed.length]⟩] }

/-- The waiters that `cancel_by_torrent_id` or `expire` took out are resolved with an errno; the
gauge is lowered once for each. -/
def dropped (s : PendingReads) (cause : Cause) (errno : ℤ) :
    Option (PendingTable ℕ × List ℕ) → PendingReads
  | none => { s with panicked := true }
  | some (table, removed) =>
    { s with
      table
      resolvers := s.resolvers ++ [⟨removed.map fun r => ⟨r, .error errno, cause⟩,
        decide (0 < removed.length), List.replicate removed.length 1⟩] }

def advanceAt (s : PendingReads) (k : ℕ) : Resolver → Option PendingReads
  | ⟨c :: replies, notifies, decrements⟩ => some
      { s with
        consumed := s.consumed ++ [c]
        resolvers := s.resolvers.set k ⟨replies, notifies, decrements⟩ }
  | ⟨[], true, decrements⟩ => some
      { s with
        entering := s.entering.map fun e => { e with isAsleep := false }
        resolvers := s.resolvers.set k ⟨[], false, decrements⟩ }
  | ⟨[], false, n :: decrements⟩ => some
      { s with
        gauge := s.gauge - n
        resolvers := s.resolvers.set k ⟨[], false, decrements⟩ }
  | ⟨[], false, []⟩ => none

def Enumerates (s : PendingReads) (ids : List ℕ) : Prop :=
  ids.Nodup ∧ ids.toFinset = s.table.groups.keys

instance (s : PendingReads) (ids : List ℕ) : Decidable (s.Enumerates ids) :=
  inferInstanceAs (Decidable (_ ∧ _))

def step (s : PendingReads) : Action → Option PendingReads
  | .defer torrentId deadline key => some
      { s with
        gauge := addU64 s.gauge 1
        entering := s.entering ++ [⟨⟨s.deferred, torrentId, deadline⟩, key, false⟩]
        deferred := s.deferred + 1 }
  | .insert i =>
    match s.entering[i]? with
    | none => none
    | some e => if e.isAsleep then none else some (s.insertAt i e)
  | .wake i =>
    match s.entering[i]? with
    | none => none
    | some e => some { s with entering := s.entering.set i { e with isAsleep := false } }
  | .finish j result =>
    match s.jobs[j]? with
    | none => none
    | some job => some ({ s with jobs := s.jobs.eraseIdx j }.finishJob job result)
  | .cancel torrentId ids =>
    if s.Enumerates ids then
      some (s.dropped .cancelled eio (s.table.cancelByTorrentId torrentId ids))
    else none
  | .expire now ids =>
    if s.Enumerates ids then some (s.dropped .expired enodata (s.table.expire now ids))
    else none
  | .advance k =>
    match s.resolvers[k]? with
    | none => none
    | some r => s.advanceAt k r

def handed (s : PendingReads) : List Consumed := s.resolvers.flatMap Resolver.replies

/-- A reply has the answer of its cause: of the download of its own range, by the lead of its own
group, or the errno of a cancellation or of an expiry. -/
def Answered (inserted : List Insertion) (c : Consumed) : Prop :=
  match c.cause with
  | .resolution job result =>
    ⟨c.reply, job.key, job.lead⟩ ∈ inserted ∧ c.answer = job.answer result
  | .cancelled => c.answer = .error eio
  | .expired => c.answer = .error enodata

/-- The step takes neither the gauge nor the ticket counter past its last value. -/
def Roomy (s : PendingReads) : Action → Prop
  | .defer .. => s.gauge + 1 < 2 ^ 64
  | .insert _ => s.table.nextId + 1 < 2 ^ 64
  | _ => True

instance (s : PendingReads) (a : Action) : Decidable (s.Roomy a) := by
  unfold Roomy
  split <;> infer_instance

/-- What holds between the steps: the tickets are the numbers of the leads, each reply has one
owner, and the gauge counts the replies that wait, are on their way in or are still to be
taken off. -/
structure Books (s : PendingReads) : Prop where
  panicked : s.panicked = false
  coherent : s.table.Coherent
  nextId : s.table.nextId = s.leads
  groups : ∀ id g, s.table.groups.get id = some g → id < s.leads ∧
    s.lastLead.get g.key = some id ∧ ∀ w ∈ g.waiters, ⟨w.reply, g.key, id⟩ ∈ s.inserted
  jobs : ∀ job ∈ s.jobs, job.ticket = job.lead ∧ job.lead < s.leads ∧
    ∀ g, s.table.groups.get job.ticket = some g → g.key = job.key
  owned : (s.consumed.map Consumed.reply : Multiset ℕ) + (s.handed.map Consumed.reply) +
    s.table.waiting = s.inserted.map Insertion.reply
  distinct : (s.inserted.map Insertion.reply ++ s.entering.map fun e => e.entry.reply).Nodup
  numbered : ∀ r ∈ s.inserted.map Insertion.reply ++ s.entering.map fun e => e.entry.reply,
    r < s.deferred
  answered : ∀ c ∈ s.consumed ++ s.handed, Answered s.inserted c
  gauge : s.gauge = s.table.waiting.card + s.entering.length +
    (s.resolvers.map fun r => r.decrements.sum).sum

lemma books_new : Books new where
  panicked := rfl
  coherent := coherent_new
  nextId := rfl
  groups := by simp [new, PendingTable.new]
  jobs := by simp [new]
  owned := by simp [new, handed]
  distinct := by simp [new]
  numbered := by simp [new]
  answered := by simp [new, handed]
  gauge := by simp [new]

section Steps

variable {s t : PendingReads}

lemma exists_split {α : Type*} {l : List α} {i : ℕ} {a : α} (h : l[i]? = some a) :
    ∃ l₁ l₂, l = l₁ ++ a :: l₂ ∧ l.eraseIdx i = l₁ ++ l₂ ∧ ∀ b, l.set i b = l₁ ++ b :: l₂ := by
  obtain ⟨hi, rfl⟩ := List.getElem?_eq_some_iff.mp h
  refine ⟨l.take i, l.drop (i + 1), ?_, eraseIdx_eq_take_drop_succ _ _, fun b => ?_⟩
  · rw [getElem_cons_drop, take_append_drop]
  · rw [set_eq_take_append_cons_drop, if_pos hi]

lemma Books.defer (h : Books s) (hroom : s.gauge + 1 < 2 ^ 64) (torrentId : ℤ) (deadline : ℕ)
    (key : RangeKey) :
    Books { s with
      gauge := addU64 s.gauge 1
      entering := s.entering ++ [⟨⟨s.deferred, torrentId, deadline⟩, key, false⟩]
      deferred := s.deferred + 1 } := by
  refine { h with distinct := ?_, numbered := ?_, gauge := ?_ }
  · rw [map_append, ← append_assoc, nodup_append]
    refine ⟨h.distinct, nodup_singleton _, ?_⟩
    -- the new reply has the next number
    rintro r hr _ hnew rfl
    obtain rfl := List.mem_singleton.mp hnew
    exact lt_irrefl _ (h.numbered _ hr)
  · intro r hr
    rw [map_append, ← append_assoc, mem_append] at hr
    rcases hr with hr | hr
    · exact lt_succ_of_lt (h.numbered r hr)
    · obtain rfl := List.mem_singleton.mp hr
      exact lt_succ_self _
  · rw [addU64_of_lt hroom, h.gauge]
    simp only [length_append, length_singleton]
    omega

lemma Books.ofEntering (h : Books s) {entering : List Entering}
    (hreplies : (entering.map fun e => e.entry.reply) = s.entering.map fun e => e.entry.reply) :
    Books { s with entering } := by
  have hlength : entering.length = s.entering.length := by
    simpa using congrArg List.length hreplies
  refine { h with distinct := ?_, numbered := ?_, gauge := ?_ }
  · rw [hreplies]
    exact h.distinct
  · rw [hreplies]
    exact h.numbered
  · rw [hlength]
    exact h.gauge

lemma Answered.mono {inserted : List Insertion} {c : Consumed} (h : Answered inserted c)
    (i : Insertion) : Answered (inserted ++ [i]) c := by
  unfold Answered at h ⊢
  split at h
  · exact ⟨mem_append_left _ h.1, h.2⟩
  · exact h
  · exact h

variable {e : Entering} {l₁ l₂ : List Entering} {a : Action}

section

variable (h : Books s)
include h

lemma Books.enter (hentering : s.entering = l₁ ++ e :: l₂) {table : PendingTable ℕ}
    {jobs : List Job} {leads lead : ℕ} {lastLead : FinMap RangeKey ℕ} (hcoherent : table.Coherent)
    (hnextId : table.nextId = leads)
    (hwaiting : table.waiting = s.table.waiting + {e.entry.reply})
    (hgroups : ∀ id g, table.groups.get id = some g → id < leads ∧ lastLead.get g.key = some id ∧
      ∀ w ∈ g.waiters, ⟨w.reply, g.key, id⟩ ∈ s.inserted ++ [⟨e.entry.reply, e.key, lead⟩])
    (hjobs : ∀ job ∈ jobs, job.ticket = job.lead ∧ job.lead < leads ∧
      ∀ g, table.groups.get job.ticket = some g → g.key = job.key) :
    Books { s with
      table, jobs, leads, lastLead
      entering := l₁ ++ l₂
      inserted := s.inserted ++ [⟨e.entry.reply, e.key, lead⟩] } := by
  have hlength : s.entering.length = l₁.length + l₂.length + 1 := by
    rw [hentering, length_append, length_cons]
    rfl
  have hperm : ((s.inserted ++ [(⟨e.entry.reply, e.key, lead⟩ : Insertion)]).map
      Insertion.reply ++ (l₁ ++ l₂).map fun e => e.entry.reply).Perm
      (s.inserted.map Insertion.reply ++ s.entering.map fun e => e.entry.reply) := by
    rw [hentering, map_append, append_assoc]
    refine List.Perm.append_left _ ?_
    simpa using List.perm_middle.symm
  exact
    { panicked := h.panicked
      coherent := hcoherent
      nextId := hnextId
      groups := hgroups
      jobs := hjobs
      owned := by
        have howned := h.owned
        simp only [handed] at howned ⊢
        rw [hwaiting, ← add_assoc, howned]
        simp [← Multiset.coe_add]
      distinct := hperm.nodup_iff.mpr h.distinct
      numbered := fun r hr => h.numbered r (hperm.mem_iff.mp hr)
      answered := fun c hc => (h.answered c hc).mono _
      gauge := by
        have hgauge := h.gauge
        simp only [hwaiting, Multiset.card_add, Multiset.card_singleton, length_append]
        omega }

lemma Books.join (hentering : s.entering = l₁ ++ e :: l₂) {id : ℕ} {g : PendingGroup ℕ}
    (hg : s.table.groups.get id = some g) (hkey : g.key = e.key) :
    Books { s with
      table := { s.table with
        groups := s.table.groups.insert id { g with waiters := g.waiters ++ [e.entry] } }
      entering := l₁ ++ l₂
      inserted := s.inserted ++ [⟨e.entry.reply, e.key, (s.lastLead.get e.key).getD 0⟩] } := by
  obtain ⟨hid, hlead, hwaiters⟩ := h.groups id g hg
  have hlead' : s.lastLead.get e.key = some id := hkey ▸ hlead
  rw [hlead', getD_some]
  refine h.enter hentering (h.coherent.replace hg rfl (by simp)) h.nextId ?_ ?_ ?_
  · rw [waiting_of_get hg, waiting, gather_insert,
      add_right_comm]
    simp [PendingGroup.replies, ← Multiset.coe_add]
  · intro k g' hg'
    rw [get_insert] at hg'
    split at hg'
    · next hk =>
      obtain rfl := hk
      cases hg'
      refine ⟨hid, hlead, fun w hw => ?_⟩
      rcases List.mem_append.mp hw with hw | hw
      · exact mem_append_left _ (hwaiters w hw)
      · obtain rfl := List.mem_singleton.mp hw
        simp [hkey]
    · obtain ⟨hk, hlast, hmem⟩ := h.groups k g' hg'
      exact ⟨hk, hlast, fun w hw => mem_append_left _ (hmem w hw)⟩
  · intro job hjob
    obtain ⟨hticket, hlt, hrange⟩ := h.jobs job hjob
    refine ⟨hticket, hlt, fun g' hg' => ?_⟩
    rw [get_insert] at hg'
    split at hg'
    · next hk =>
      cases hg'
      exact hrange g (hk ▸ hg)
    · exact hrange g' hg'

lemma Books.lead (hroom : s.table.nextId + 1 < 2 ^ 64) (hentering : s.entering = l₁ ++ e :: l₂)
    (hrange : s.table.byRange.get e.key = none) (hfree : s.table.groups.keys.card < maxPending) :
    Books { s with
      table := ⟨s.table.groups.insert s.table.nextId ⟨e.key, [e.entry]⟩,
        s.table.byRange.insert e.key s.table.nextId, addU64 s.table.nextId 1⟩
      jobs := s.jobs ++ [⟨s.table.nextId, e.key, s.leads⟩]
      leads := s.leads + 1
      lastLead := s.lastLead.insert e.key s.leads
      entering := l₁ ++ l₂
      inserted := s.inserted ++ [⟨e.entry.reply, e.key, s.leads⟩] } := by
  rw [addU64_of_lt hroom, h.nextId]
  have hnone : s.table.groups.get s.leads = none := by
    by_contra hsome
    obtain ⟨g, hg⟩ := Option.ne_none_iff_exists'.mp hsome
    exact lt_irrefl _ (h.groups _ g hg).1
  refine h.enter hentering (h.coherent.add hnone hrange hfree _) rfl ?_ ?_ ?_
  · rw [waiting, gather_insert, erase_of_get_none hnone, add_comm]
    simp [PendingGroup.replies, waiting]
  · intro k g hg
    rw [get_insert] at hg
    split at hg
    · next hk =>
      cases hg
      subst hk
      refine ⟨lt_succ_self _, by simp, fun w hw => ?_⟩
      obtain rfl := List.mem_singleton.mp hw
      exact mem_append_right _ (mem_singleton_self _)
    · obtain ⟨hk, hlast, hmem⟩ := h.groups k g hg
      refine ⟨lt_succ_of_lt hk, ?_, fun w hw => mem_append_left _ (hmem w hw)⟩
      -- the range of the new group had no group
      rw [get_insert_ne _ fun hkey => ?_, hlast]
      have hsome := (h.coherent.indexed e.key k).mpr ⟨g, hg, hkey⟩
      rw [hrange] at hsome
      cases hsome
  · intro job hjob
    rcases List.mem_append.mp hjob with hjob | hjob
    · obtain ⟨hticket, hlt, hkey⟩ := h.jobs job hjob
      refine ⟨hticket, lt_succ_of_lt hlt, fun g hg => hkey g ?_⟩
      rwa [get_insert_ne _ (by omega)] at hg
    · obtain rfl := List.mem_singleton.mp hjob
      refine ⟨rfl, lt_succ_self _, fun g hg => ?_⟩
      rw [get_insert_self] at hg
      rw [← Option.some.inj hg]

lemma Books.insertAt (hroom : s.table.nextId + 1 < 2 ^ 64) {i : ℕ}
    (he : s.entering[i]? = some e) : Books (s.insertAt i e) := by
  obtain ⟨l₁, l₂, hentering, herase, hset⟩ := exists_split he
  unfold PendingReads.insertAt
  rcases insertOnce_cases h.coherent e.entry e.key with
    ⟨id, g, hg, hkey, -, hpass⟩ | ⟨hrange, hfree, hpass⟩ | ⟨-, -, hpass⟩ <;> rw [hpass]
  · rw [herase]
    exact h.join hentering hg hkey
  · rw [herase]
    exact h.lead hroom hentering hrange hfree
  · refine h.ofEntering ?_
    rw [hset, hentering]
    simp

lemma Books.taken {table : PendingTable ℕ} {r : Resolver} (hcoherent : table.Coherent)
    (hshrinks : s.table.Shrinks table) (hnextId : table.nextId = s.table.nextId)
    (hwaiting : s.table.waiting = (r.replies.map Consumed.reply : Multiset ℕ) + table.waiting)
    (hanswered : ∀ c ∈ r.replies, Answered s.inserted c)
    (hdecrements : r.decrements.sum = r.replies.length) :
    Books { s with table, resolvers := s.resolvers ++ [r] } where
  panicked := h.panicked
  coherent := hcoherent
  nextId := hnextId.trans h.nextId
  groups := by
    intro id g' hg'
    obtain ⟨g, hg, hkey, hmem⟩ := hshrinks id g' hg'
    obtain ⟨hid, hlast, hwaiters⟩ := h.groups id g hg
    rw [hkey]
    exact ⟨hid, hlast, fun w hw => hwaiters w (hmem w hw)⟩
  jobs := by
    intro job hjob
    obtain ⟨hticket, hlt, hrange⟩ := h.jobs job hjob
    refine ⟨hticket, hlt, fun g' hg' => ?_⟩
    obtain ⟨g, hg, hkey, -⟩ := hshrinks _ g' hg'
    rw [hkey, hrange g hg]
  owned := by
    have howned := h.owned
    rw [hwaiting, ← add_assoc] at howned
    rw [← howned]
    simp [handed, ← Multiset.coe_add, add_assoc]
  distinct := h.distinct
  numbered := h.numbered
  answered := by
    intro c hc
    simp only [handed, flatMap_append, flatMap_singleton, ← append_assoc] at hc
    rcases List.mem_append.mp hc with hc | hc
    · exact h.answered c hc
    · exact hanswered c hc
  gauge := by
    have hgauge := h.gauge
    rw [hwaiting] at hgauge
    simp only [Multiset.card_add, Multiset.coe_card, length_map] at hgauge
    simp only [map_append, map_singleton, List.sum_append, sum_singleton,
      hdecrements]
    omega

lemma Books.finishJob {job : Job} (hticket : job.ticket = job.lead)
    (hrange : ∀ g, s.table.groups.get job.ticket = some g → g.key = job.key)
    (result : Except ℤ (List UInt8)) : Books (s.finishJob job result) := by
  have hresolve : (match result with
      | .ok data => s.table.resolveOrEnodata job.ticket data job.key.size
      | .error errno => s.table.resolveError job.ticket errno) =
      s.table.resolveWith job.ticket (job.answer result) := by
    cases result with
    | ok data => exact resolveOrEnodata_eq _ _ _ _
    | error errno => rfl
  unfold PendingReads.finishJob
  rw [hresolve]
  rcases resolveWith_cases h.coherent job.ticket (job.answer result) with
    ⟨-, hnone⟩ | ⟨table, g, hg, hsome, hcoherent, hshrinks, hnextId, hwaiting⟩
  · rw [hnone]
    exact h.taken h.coherent (.refl _) rfl (by simp) (by simp) (by simp)
  · rw [hsome]
    refine h.taken hcoherent hshrinks hnextId ?_ ?_ (by simp)
    · rw [hwaiting]
      simp [comp_def]
    · simp only [getD_some, List.map_map, List.mem_map, comp_apply]
      rintro _ ⟨reply, hreply, rfl⟩
      obtain ⟨w, hw, rfl⟩ := List.mem_map.mp hreply
      refine ⟨?_, rfl⟩
      rw [← hrange g hg, ← hticket]
      exact (h.groups _ g hg).2.2 w hw

lemma Books.dropped {ids : List ℕ} (hids : s.Enumerates ids) (p : PendingEntry ℕ → Bool)
    {cause : Cause} {errno : ℤ}
    (hcause : ∀ reply, Answered s.inserted ⟨reply, .error errno, cause⟩) :
    Books (s.dropped cause errno (dropWaiters p ids s.table [])) := by
  have hlive : ∀ id ∈ ids, (s.table.groups.get id).isSome := by
    intro id hid
    rw [← s.table.groups.mem_keys, ← hids.2]
    exact List.mem_toFinset.mpr hid
  obtain ⟨table, out, hdrop, hcoherent, hshrinks, hnextId, hwaiting⟩ :=
    dropWaiters_spec p ids hids.1 s.table [] h.coherent hlive
  rw [hdrop]
  refine h.taken hcoherent hshrinks hnextId ?_ ?_ (by simp)
  · simpa [comp_def] using hwaiting
  · simp only [nil_append, List.mem_map]
    rintro _ ⟨reply, -, rfl⟩
    exact hcause reply

lemma Books.advanceAt {k : ℕ} {r : Resolver} (hr : s.resolvers[k]? = some r)
    (hstep : s.advanceAt k r = some t) : Books t := by
  obtain ⟨l₁, l₂, hresolvers, -, hset⟩ := exists_split hr
  have hhanded : s.handed =
      l₁.flatMap Resolver.replies ++ (r.replies ++ l₂.flatMap Resolver.replies) := by
    simp [handed, hresolvers]
  have hflat : ∀ r', (s.resolvers.set k r').flatMap Resolver.replies =
      l₁.flatMap Resolver.replies ++ (r'.replies ++ l₂.flatMap Resolver.replies) := by
    intro r'
    rw [hset]
    simp
  have hsum : ∀ r', ((s.resolvers.set k r').map fun r => r.decrements.sum).sum +
      r.decrements.sum = (s.resolvers.map fun r => r.decrements.sum).sum + r'.decrements.sum := by
    intro r'
    rw [hset, hresolvers]
    simp only [map_append, map_cons, List.sum_append, sum_cons]
    omega
  have hgauge := h.gauge
  unfold PendingReads.advanceAt at hstep
  split at hstep
  · -- a reply moves from the resolver to the resolved ones
    next c replies notifies decrements =>
      cases hstep
      have hperm : (s.consumed ++ s.handed).Perm
          (s.consumed ++ [c] ++ (s.resolvers.set k ⟨replies, notifies, decrements⟩).flatMap
            Resolver.replies) := by
        rw [hhanded, hflat, append_assoc]
        refine List.Perm.append_left _ ?_
        exact perm_middle
      refine { h with owned := ?_, answered := ?_, gauge := ?_ }
      · rw [← h.owned, Multiset.coe_add, Multiset.coe_add, ← map_append, ← map_append]
        congr 1
        exact Multiset.coe_eq_coe.mpr (hperm.symm.map _)
      · exact fun c' hc' => h.answered c' (hperm.mem_iff.mpr hc')
      · have := hsum ⟨replies, notifies, decrements⟩
        dsimp only at this ⊢
        omega
  · -- the readers that sleep are notified
    next decrements =>
      cases hstep
      have hkept : (s.resolvers.set k ⟨[], false, decrements⟩).flatMap Resolver.replies =
          s.handed := by
        rw [hflat, hhanded]
      have hbooks : Books { s with resolvers := s.resolvers.set k ⟨[], false, decrements⟩ } := by
        refine { h with owned := ?_, answered := ?_, gauge := ?_ }
        · simpa only [handed, hkept] using h.owned
        · simpa only [handed, hkept] using h.answered
        · have := hsum ⟨[], false, decrements⟩
          dsimp only at this ⊢
          omega
      exact hbooks.ofEntering (by simp)
  · -- the gauge is lowered by an amount it was raised by
    next n decrements =>
      cases hstep
      have hkept : (s.resolvers.set k ⟨[], false, decrements⟩).flatMap Resolver.replies =
          s.handed := by
        rw [hflat, hhanded]
      have hlowered := hsum ⟨[], false, decrements⟩
      rw [sum_cons] at hlowered
      refine { h with owned := ?_, answered := ?_, gauge := ?_ }
      · simpa only [handed, hkept] using h.owned
      · simpa only [handed, hkept] using h.answered
      · dsimp only at hlowered ⊢
        omega
  · cases hstep

end

lemma step_cases (hstep : s.step a = some t) :
    (∃ torrentId deadline key, a = .defer torrentId deadline key ∧ t =
      { s with
        gauge := addU64 s.gauge 1
        entering := s.entering ++ [⟨⟨s.deferred, torrentId, deadline⟩, key, false⟩]
        deferred := s.deferred + 1 }) ∨
    (∃ i e, a = .insert i ∧ s.entering[i]? = some e ∧ e.isAsleep = false ∧ t = s.insertAt i e) ∨
    (∃ i e, a = .wake i ∧ s.entering[i]? = some e ∧
      t = { s with entering := s.entering.set i { e with isAsleep := false } }) ∨
    (∃ j job result, a = .finish j result ∧ s.jobs[j]? = some job ∧
      t = { s with jobs := s.jobs.eraseIdx j }.finishJob job result) ∨
    (∃ ids p cause errno, s.Enumerates ids ∧
      (cause = .cancelled ∧ errno = eio ∨ cause = .expired ∧ errno = enodata) ∧
      t = s.dropped cause errno (dropWaiters p ids s.table [])) ∨
    (∃ k r, a = .advance k ∧ s.resolvers[k]? = some r ∧ s.advanceAt k r = some t) := by
  cases a with
  | defer torrentId deadline key =>
    exact .inl ⟨torrentId, deadline, key, rfl, (Option.some.inj hstep).symm⟩
  | insert i =>
    cases he : s.entering[i]? with
    | none => simp [PendingReads.step, he] at hstep
    | some e =>
      simp only [PendingReads.step, he, ite_none_left_eq_some, Option.some.injEq,
        Bool.not_eq_true] at hstep
      exact .inr (.inl ⟨i, e, rfl, he, hstep.1, hstep.2.symm⟩)
  | wake i =>
    cases he : s.entering[i]? with
    | none => simp [PendingReads.step, he] at hstep
    | some e =>
      simp only [PendingReads.step, he, Option.some.injEq] at hstep
      exact .inr (.inr (.inl ⟨i, e, rfl, he, hstep.symm⟩))
  | finish j result =>
    cases hjob : s.jobs[j]? with
    | none => simp [PendingReads.step, hjob] at hstep
    | some job =>
      simp only [PendingReads.step, hjob, Option.some.injEq] at hstep
      exact .inr (.inr (.inr (.inl ⟨j, job, result, rfl, hjob, hstep.symm⟩)))
  | cancel torrentId ids =>
    simp only [PendingReads.step, ite_none_right_eq_some, Option.some.injEq] at hstep
    exact .inr (.inr (.inr (.inr (.inl
      ⟨ids, _, .cancelled, eio, hstep.1, .inl ⟨rfl, rfl⟩, hstep.2.symm⟩))))
  | expire now ids =>
    simp only [PendingReads.step, ite_none_right_eq_some, Option.some.injEq] at hstep
    exact .inr (.inr (.inr (.inr (.inl
      ⟨ids, _, .expired, enodata, hstep.1, .inr ⟨rfl, rfl⟩, hstep.2.symm⟩))))
  | advance k =>
    cases hr : s.resolvers[k]? with
    | none => simp [PendingReads.step, hr] at hstep
    | some r =>
      simp only [PendingReads.step, hr] at hstep
      exact .inr (.inr (.inr (.inr (.inr ⟨k, r, rfl, hr, hstep⟩))))

lemma Books.step (h : Books s) (hroom : s.Roomy a) (hstep : s.step a = some t) : Books t := by
  rcases step_cases hstep with ⟨torrentId, deadline, key, rfl, rfl⟩ | ⟨i, e, rfl, he, -, rfl⟩ |
    ⟨i, e, rfl, he, rfl⟩ | ⟨j, job, result, rfl, hjob, rfl⟩ |
    ⟨ids, p, cause, errno, hids, hcause, rfl⟩ | ⟨k, r, rfl, hr, hadvance⟩
  · exact h.defer hroom _ _ _
  · exact h.insertAt hroom he
  · obtain ⟨l₁, l₂, hentering, -, hset⟩ := exists_split he
    refine h.ofEntering ?_
    rw [hset, hentering]
    simp
  · obtain ⟨hticket, -, hrange⟩ := h.jobs job (mem_of_getElem? hjob)
    have hrest : Books { s with jobs := s.jobs.eraseIdx j } :=
      { h with jobs := fun job hmem => h.jobs job (mem_of_mem_eraseIdx hmem) }
    exact hrest.finishJob hticket hrange result
  · refine h.dropped hids p fun reply => ?_
    rcases hcause with ⟨rfl, rfl⟩ | ⟨rfl, rfl⟩ <;> rfl
  · exact h.advanceAt hr hadvance

end Steps

/-! ### Every run -/

/-- What the program has to do with the replies: nothing panics; each reply that came in was
resolved, is in the hands of a step that will resolve it, or is in the table, and only one of them
and once; the range index and the groups correspond, no group is empty and there are at most
`maxPending`; each resolved reply has the answer of its cause; and the gauge counts the waiters
whenever no reader and no resolver is on its way. -/
structure Settled (s : PendingReads) : Prop where
  panicked : s.panicked = false
  owned : (s.consumed.map Consumed.reply : Multiset ℕ) + (s.handed.map Consumed.reply) +
    s.table.waiting = s.inserted.map Insertion.reply
  once : (s.inserted.map Insertion.reply).Nodup
  coherent : s.table.Coherent
  answered : ∀ c ∈ s.consumed, Answered s.inserted c
  gauge : s.entering = [] → (∀ r ∈ s.resolvers, r.replies = [] ∧ r.decrements = []) →
    s.handed = [] ∧ s.gauge = s.table.waiting.card

variable {s : PendingReads}

lemma Books.settled (h : Books s) : s.Settled where
  panicked := h.panicked
  owned := h.owned
  once := (List.nodup_append.mp h.distinct).1
  coherent := h.coherent
  answered := fun c hc => h.answered c (mem_append_left _ hc)
  gauge := by
    intro hentering hdone
    have hsum : (s.resolvers.map fun r => r.decrements.sum).sum = 0 :=
      sum_eq_zero fun n hn => by
        obtain ⟨r, hr, rfl⟩ := List.mem_map.mp hn
        simp [(hdone r hr).2]
    refine ⟨List.flatMap_eq_nil_iff.mpr fun r hr => (hdone r hr).1, ?_⟩
    rw [h.gauge, hentering, hsum, length_nil]
    rfl

/-- Over every interleaving of deferred reads, resolutions, cancellations and expiries in which
neither the tickets nor the gauge come round: each reply is resolved once or still waits, with the
answer of its own range and of its own lead when a download ends, and the table and the gauge are
right. -/
theorem replies_settled_of_run (as : List Action) (t : PendingReads)
    (hrun : Run.runFrom step new as = some t) (hroom : Run.Along step Roomy new as) : t.Settled :=
  (Run.invariant_of_run_along (fun _ _ _ => Books.step) books_new hroom hrun).settled

def firstRange : RangeKey := ⟨['a'], 0, 0, 4⟩

def secondRange : RangeKey := ⟨['a'], 0, 4, 4⟩

def sharedDownload : List Action :=
  [.defer 1 9 firstRange, .insert 0, .defer 2 9 firstRange, .insert 0, .defer 1 3 secondRange,
    .insert 0, .expire 5 [1, 0], .finish 0 (.ok [7]), .advance 1, .advance 0, .advance 1,
    .advance 1, .advance 0, .advance 0, .advance 1]

theorem replies_settled_of_sharedDownload : ∃ t, Run.runFrom step new sharedDownload = some t ∧
      Run.Along step Roomy new sharedDownload ∧ t.consumed.length = 3 ∧ t.gauge = 0 ∧
      t.Settled := by
  obtain ⟨t, hrun, hconsumed, hgauge⟩ : ∃ t, Run.runFrom step new sharedDownload = some t ∧
      t.consumed.length = 3 ∧ t.gauge = 0 := ⟨_, rfl, rfl, rfl⟩
  have hroom : Run.Along step Roomy new sharedDownload := by decide
  exact ⟨t, hrun, hroom, hconsumed, hgauge, replies_settled_of_run sharedDownload t hrun hroom⟩

/-! ### Tickets that come round again -/

def visit (key : RangeKey) (id : ℕ) : List Action :=
  [.defer 1 0 key, .insert 0, .expire 0 [id]]

lemma run_visit {id : ℕ} (htable : s.table = ⟨FinMap.empty, FinMap.empty, id⟩)
    (hentering : s.entering = []) (key : RangeKey) :
    ∃ t, Run.runFrom step s (visit key id) = some t ∧
      t.table = ⟨FinMap.empty, FinMap.empty, addU64 id 1⟩ ∧ t.entering = [] ∧
      t.jobs = s.jobs ++ [⟨id, key, s.leads⟩] ∧ t.deferred = s.deferred + 1 ∧
      t.inserted = s.inserted ++ [⟨s.deferred, key, s.leads⟩] := by
  have hgroups : (FinMap.empty.insert id (⟨key, [⟨s.deferred, 1, 0⟩]⟩ : PendingGroup ℕ)).erase id =
      FinMap.empty := by
    ext1 k
    by_cases hk : k = id <;> simp [hk]
  have hrange : ((FinMap.empty : FinMap RangeKey ℕ).insert key id).erase key = FinMap.empty := by
    ext1 k
    by_cases hk : k = key <;> simp [hk]
  simp [Run.runFrom, visit, step, hentering, insertAt, htable, insertOnce, maxPending,
    Enumerates, expire, dropWaiters, dropped, hgroups, hrange]

/-- The first worker still runs, and the table is empty. -/
structure LateWorker (id : ℕ) (s : PendingReads) : Prop where
  table : s.table = ⟨FinMap.empty, FinMap.empty, id⟩
  entering : s.entering = []
  job : ∃ jobs, s.jobs = ⟨0, firstRange, 0⟩ :: jobs
  numbered : ∀ i ∈ s.inserted, i.reply < s.deferred

lemma LateWorker.visit {id : ℕ} (h : LateWorker id s) :
    ∃ t, Run.runFrom step s (visit secondRange id) = some t ∧ LateWorker (addU64 id 1) t := by
  obtain ⟨t, hrun, htable, hentering, hjobs, hdeferred, hinserted⟩ :=
    run_visit h.table h.entering secondRange
  refine ⟨t, hrun, htable, hentering, ?_, ?_⟩
  · obtain ⟨jobs, hfirst⟩ := h.job
    rw [hjobs, hfirst]
    exact ⟨_, rfl⟩
  · intro i hi
    rw [hinserted] at hi
    rw [hdeferred]
    rcases List.mem_append.mp hi with hi | hi
    · exact lt_succ_of_lt (h.numbered i hi)
    · rw [List.mem_singleton.mp hi]
      exact lt_succ_self _

lemma LateWorker.visits (n : ℕ) : ∀ {s : PendingReads} {id : ℕ}, LateWorker id s → id < 2 ^ 64 →
    ∃ as t, Run.runFrom step s as = some t ∧ LateWorker ((id + n) % 2 ^ 64) t := by
  induction n with
  | zero =>
    intro s id h hid
    exact ⟨[], s, rfl, by rwa [add_zero, mod_eq_of_lt hid]⟩
  | succ n ih =>
    intro s id h hid
    obtain ⟨u, hu, hlate⟩ := h.visit
    obtain ⟨as, t, ht, hlast⟩ := ih hlate (mod_lt _ (by decide))
    refine ⟨_, t, Run.runFrom_append.mpr ⟨u, hu, ht⟩, ?_⟩
    rwa [addU64, mod_add_mod, add_right_comm, add_assoc] at hlast

lemma LateWorker.answers (h : LateWorker 0 s) :
    ∃ t, Run.runFrom step s [.defer 1 0 secondRange, .insert 0, .finish 0 (.ok [7]),
        .advance s.resolvers.length] = some t ∧ t.consumed = s.consumed ++
        [⟨s.deferred, .data [7], .resolution ⟨0, firstRange, 0⟩ (.ok [7])⟩] ∧
      t.inserted = s.inserted ++ [⟨s.deferred, secondRange, s.leads⟩] := by
  obtain ⟨jobs, hjobs⟩ := h.job
  simp [Run.runFrom, step, h.entering, insertAt, h.table, insertOnce, maxPending,
    hjobs, finishJob, resolveOrEnodata, resolve,
    resolveWith, removeGroup, PendingGroup.replies, advanceAt]

/-- After `2 ^ 64` leads the ticket of a worker that still runs is given again, to a read of another
range; the worker answers that read with the data of its own range. -/
theorem reply_of_other_range_after_wrap :
    ∃ as t c job i, Run.runFrom step new as = some t ∧ c ∈ t.consumed ∧
      c.cause = .resolution job (.ok [7]) ∧ c.answer = .data [7] ∧ i ∈ t.inserted ∧
      i.reply = c.reply ∧ i.key ≠ job.key ∧ ¬ t.Settled := by
  have hranges : secondRange ≠ firstRange := by decide
  obtain ⟨s, hs, hlate⟩ : ∃ s, Run.runFrom step new (visit firstRange 0) = some s ∧
      LateWorker 1 s := by
    obtain ⟨s, hs, htable, hentering, hjobs, hdeferred, hinserted⟩ :=
      run_visit (show new.table = ⟨FinMap.empty, FinMap.empty, 0⟩ from rfl) rfl firstRange
    refine ⟨s, hs, htable, hentering, by simp [hjobs, new], ?_⟩
    simp [hinserted, hdeferred, new]
  obtain ⟨as, u, hu, hround⟩ := hlate.visits (2 ^ 64 - 1) (by decide)
  obtain ⟨t, ht, hconsumed, hinserted⟩ := LateWorker.answers (s := u) (by simpa using hround)
  refine ⟨_, t, ⟨u.deferred, .data [7], .resolution ⟨0, firstRange, 0⟩ (.ok [7])⟩,
    ⟨0, firstRange, 0⟩, ⟨u.deferred, secondRange, u.leads⟩,
    Run.runFrom_append.mpr ⟨s, hs, Run.runFrom_append.mpr ⟨u, hu, ht⟩⟩, by simp [hconsumed], rfl,
    rfl, by simp [hinserted], rfl, hranges, fun hsettled => ?_⟩
  obtain ⟨hmem, -⟩ := hsettled.answered ⟨u.deferred, .data [7], _⟩ (by
    rw [hconsumed]
    exact List.mem_append_right _ (List.mem_singleton_self _))
  rw [hinserted] at hmem
  rcases List.mem_append.mp hmem with hmem | hmem
  · exact lt_irrefl _ (hround.numbered _ hmem)
  · exact hranges (congrArg Insertion.key (List.mem_singleton.mp hmem)).symm

end PendingReads

end TorrentFs.Fuse
