import TorrentFs.Download.EngineTurns

/-!
# Every read is answered once, every reader has its read

An iteration of the loop keeps the books: the readers of a torrent are those of its parked reads.
Every act of the loop keeps them, so no iteration panics, and each read that was accepted is either
parked or answered.
-/

namespace TorrentFs.Download

open Text Word List Option Nat

namespace Iteration

/-- The piece counts that reach the engine are right. -/
structure Reports (pieceCount : Str → ℕ) (it : Iteration) : Prop where
  /-- The torrent of the command has `pieceCount` pieces, and its handle says the same whenever it
  answers. -/
  torrent : ∀ c info infoHash, it.received = .command c → c.info? = some info →
    info.infoHash = .ok infoHash →
      (toI32 info.numPieces).toNat = pieceCount infoHash ∧
      ∀ n pieceLength numPieces,
        (it.answers n).torrentInfo = .ok (pieceLength, numPieces) →
          (wrapI32 numPieces).toNat = pieceCount infoHash
  /-- The status of the pieces is asked for a count that is not negative. -/
  status : ∀ infoHash numPieces,
    it.received = .command (.getPiecesStatus infoHash numPieces) → 0 ≤ numPieces

end Iteration

namespace EngineState

open PieceScheduler (SameReaders)

/-! ### The books -/

def registeredIds (parked : List PendingRead) (infoHash : Str) : List ℕ :=
  parked.filterMap fun read =>
    if read.infoHash = infoHash ∧ read.isRegistered = true then read.readerId else none

/-- The books, for a list of parked reads and the numbers of the reads that are being started. A
torrent without a handle has no readers, also while reads of it are still parked. -/
structure Tracks (pieceCount : Str → ℕ) (s : EngineState) (parked : List PendingRead)
    (starting : List ℕ) : Prop where
  sized : s.scheduler.Sized pieceCount
  known : ∀ read ∈ parked, Known pieceCount read
  phase : ∀ read ∈ parked, read.phase = .waitState → read.readerId = none
  ids : ∀ h ∈ s.handles, (s.scheduler.idsOf h).Perm (registeredIds parked h)
  gone : ∀ h ∉ s.handles, s.scheduler.idsOf h = []
  distinct : (parked.filterMap PendingRead.readerId).Nodup
  handed : ∃ n, s.scheduler.nextReadId = n % 2 ^ 64 ∧
    n + parked.countP (fun read => read.readerId.isNone) + starting.length ≤ s.accepted ∧
    ∀ id ∈ parked.filterMap PendingRead.readerId, id < n

section Books

variable {pieceCount : Str → ℕ} {s t : EngineState} {parked parked' others : List PendingRead}
  {read read' : PendingRead} {p : Polled} {starting : List ℕ}

lemma Tracks.perm (h : Tracks pieceCount s parked starting) (hperm : parked.Perm parked') :
    Tracks pieceCount s parked' starting := by
  obtain ⟨n, hnext, hroom, hlt⟩ := h.handed
  refine ⟨h.sized, fun r hr => h.known r (hperm.mem_iff.mpr hr),
    fun r hr => h.phase r (hperm.mem_iff.mpr hr),
    fun k hk => (h.ids k hk).trans (hperm.filterMap _), h.gone,
    (hperm.filterMap _).nodup_iff.mp h.distinct, ⟨n, hnext, ?_, fun id hid => ?_⟩⟩
  · rwa [← hperm.countP_eq]
  · exact hlt id ((hperm.filterMap _).mem_iff.mpr hid)

lemma Tracks.of_readers (h : Tracks pieceCount s parked starting)
    (hsized : t.scheduler.Sized pieceCount)
    (hids : ∀ k, t.scheduler.idsOf k = s.scheduler.idsOf k)
    (hnext : t.scheduler.nextReadId = s.scheduler.nextReadId) (hhandles : t.handles = s.handles)
    (haccepted : t.accepted = s.accepted) : Tracks pieceCount t parked starting := by
  refine ⟨hsized, h.known, h.phase, fun k hk => ?_, fun k hk => ?_, h.distinct, ?_⟩
  · rw [hids]
    exact h.ids k (hhandles ▸ hk)
  · rw [hids]
    exact h.gone k (hhandles ▸ hk)
  · rw [hnext, haccepted]
    exact h.handed

lemma Tracks.of_quiet (h : Tracks pieceCount s parked starting) (hquiet : Quiet s t) :
    Tracks pieceCount t parked starting :=
  h.of_readers (hquiet.sized pieceCount h.sized) hquiet.readers.idsOf_eq hquiet.readers.nextReadId
    hquiet.handles hquiet.accepted

lemma Tracks.of_same (h : Tracks pieceCount s (read :: others) starting)
    (hsame : SameRead read read')
    (hphase : read'.phase = .waitState → read.phase = .waitState) :
    Tracks pieceCount s (read' :: others) starting := by
  have hids : ∀ k, registeredIds (read' :: others) k = registeredIds (read :: others) k := by
    intro k
    simp only [registeredIds, filterMap_cons, hsame.infoHash, hsame.isRegistered,
      hsame.readerId]
  have hreaders : (read' :: others).filterMap PendingRead.readerId =
      (read :: others).filterMap PendingRead.readerId := by
    simp only [filterMap_cons, hsame.readerId]
  refine ⟨h.sized, ?_, ?_, fun k hk => hids k ▸ h.ids k hk, h.gone, hreaders ▸ h.distinct, ?_⟩
  · obtain ⟨hread, hothers⟩ := List.forall_mem_cons.mp h.known
    exact List.forall_mem_cons.mpr ⟨hread.of_same hsame.info hsame.infoHash, hothers⟩
  · obtain ⟨hread, hothers⟩ := List.forall_mem_cons.mp h.phase
    exact List.forall_mem_cons.mpr
      ⟨fun hp => hsame.readerId.trans (hread (hphase hp)), hothers⟩
  · rw [hreaders, countP_cons, hsame.readerId, ← countP_cons]
    exact h.handed

lemma registeredIds_cons (read : PendingRead) (others : List PendingRead) (k : Str) :
    registeredIds (read :: others) k =
      (if read.infoHash = k ∧ read.isRegistered = true then read.readerId.toList else []) ++
        registeredIds others k := by
  unfold registeredIds
  rw [filterMap_cons]
  by_cases hread : read.infoHash = k ∧ read.isRegistered = true
  · simp only [if_pos hread]
    cases read.readerId <;> rfl
  · simp only [if_neg hread]
    rfl

lemma registeredIds_cons_of_free (others : List PendingRead) (k : Str)
    (hfree : read.readerId = none) : registeredIds (read :: others) k = registeredIds others k := by
  rw [registeredIds_cons, hfree]
  simp

lemma mem_readerIds_of_registered {id : ℕ} {k : Str} (h : id ∈ registeredIds parked k) :
    id ∈ parked.filterMap PendingRead.readerId := by
  obtain ⟨r, hr, hid⟩ := List.mem_filterMap.mp h
  split at hid
  · exact List.mem_filterMap.mpr ⟨r, hr, hid⟩
  · cases hid

lemma Tracks.of_registered (h : Tracks pieceCount s (read :: others) starting)
    (hreg : Registered pieceCount s read p) (hbound : s.accepted ≤ 2 ^ 64) :
    Tracks pieceCount p.state (p.read :: others) starting := by
  obtain ⟨n, hnext, hroom, hlt⟩ := h.handed
  obtain ⟨hknown, hknowns⟩ := List.forall_mem_cons.mp h.known
  obtain ⟨-, hphases⟩ := List.forall_mem_cons.mp h.phase
  have hfree := hreg.free
  have hreaders : (read :: others).filterMap PendingRead.readerId =
      others.filterMap PendingRead.readerId := by
    rw [filterMap_cons, hfree]
  rw [hreaders] at hlt
  rw [countP_cons, hfree, isNone_none, if_pos rfl] at hroom
  have hid : s.scheduler.nextReadId = n := by
    rw [hnext, mod_eq_of_lt (by omega)]
  have hreaders' : (p.read :: others).filterMap PendingRead.readerId =
      n :: others.filterMap PendingRead.readerId := by
    rw [filterMap_cons, hreg.readerId, hid]
  refine ⟨hreg.sized, List.forall_mem_cons.mpr ⟨hknown.of_same hreg.info hreg.infoHash, hknowns⟩,
    List.forall_mem_cons.mpr ⟨fun hp => absurd hp hreg.phase, hphases⟩, ?_, ?_, ?_, ?_⟩
  · intro k hk
    have hold := h.ids k (hreg.frame.handles ▸ hk)
    rw [registeredIds_cons_of_free others k hfree] at hold
    rw [hreg.idsOf, registeredIds_cons, hreg.readerId, hreg.infoHash, hid]
    by_cases hregistered : p.read.isRegistered = true ∧ k = read.infoHash
    · rw [if_pos hregistered, if_pos ⟨hregistered.2.symm, hregistered.1⟩]
      exact (perm_append_comm).trans (hold.append_left [n])
    · rw [if_neg hregistered, if_neg fun hand => hregistered ⟨hand.2, hand.1.symm⟩]
      exact hold
  · intro k hk
    rw [hreg.frame.handles] at hk
    have hother : ¬ (p.read.isRegistered = true ∧ k = read.infoHash) := by
      rintro ⟨-, rfl⟩
      exact hk hreg.handle
    rw [hreg.idsOf, if_neg hother]
    exact h.gone k hk
  · rw [hreaders', nodup_cons]
    exact ⟨fun hmem => Nat.lt_irrefl n (hlt n hmem), hreaders ▸ h.distinct⟩
  · refine ⟨n + 1, ?_, ?_, ?_⟩
    · rw [hreg.nextReadId, hid, addU64]
    · rw [countP_cons, hreg.readerId, isNone_some, hreg.frame.accepted]
      simp only [Bool.false_eq_true, if_false]
      omega
    · rw [hreaders']
      refine List.forall_mem_cons.mpr ⟨lt_succ_self n, fun id hmem => ?_⟩
      exact lt_succ_of_lt (hlt id hmem)

lemma Tracks.of_effect (h : Tracks pieceCount s (read :: others) starting)
    (heffect : Effect pieceCount s read p) (hbound : s.accepted ≤ 2 ^ 64) :
    Tracks pieceCount p.state (p.read :: others) starting := by
  rcases heffect with hkept | hreg
  · exact (h.of_quiet hkept.quiet).of_same hkept.same hkept.phase
  · exact h.of_registered hreg hbound

lemma Effect.readerId_of_ended (heffect : Effect pieceCount s read p) {result : ReadResult}
    (hresult : p.result = some result) : p.read.readerId = read.readerId := by
  rcases heffect with hkept | hreg
  · exact hkept.same.readerId
  · cases hreg.parked.symm.trans hresult

/-! ### The end of a read -/

lemma releaseReader_spec (hsized : s.scheduler.Sized pieceCount) {infoHash : Str}
    (hgone : infoHash ∉ s.handles → s.scheduler.idsOf infoHash = []) (id : ℕ) :
    ∃ t, s.releaseReader infoHash id = some t ∧ Frame s t ∧ t.scheduler.Sized pieceCount ∧
      t.scheduler.nextReadId = s.scheduler.nextReadId ∧ ∀ k, t.scheduler.idsOf k =
        if k = infoHash then (s.scheduler.idsOf k).erase id else s.scheduler.idsOf k := by
  unfold releaseReader
  split
  · obtain ⟨scheduler, hreleased, hsized', hnext, hids⟩ := PieceScheduler.readerReleased_spec
      hsized infoHash id s.ask.1.isPieceComplete
    dsimp only
    change ∃ t, (s.scheduler.readerReleased _ _ _).map _ = some t ∧ _
    rw [hreleased]
    exact ⟨_, rfl, ⟨rfl, rfl, rfl, rfl, rfl, rfl⟩, hsized', hnext, hids⟩
  · next hhandle =>
    refine ⟨s, rfl, .refl s, hsized, rfl, fun k => ?_⟩
    by_cases hk : k = infoHash
    · rw [if_pos hk, hk, hgone hhandle, erase_nil]
    · rw [if_neg hk]

section

variable (h : Tracks pieceCount s (read :: others) starting)
include h

lemma Tracks.perm_erase {id : ℕ} (hid : read.readerId = some id)
    (hhandle : read.infoHash ∈ s.handles) :
    ((s.scheduler.idsOf read.infoHash).erase id).Perm (registeredIds others read.infoHash) := by
  have hperm := h.ids read.infoHash hhandle
  rw [registeredIds_cons, hid] at hperm
  by_cases hregistered : read.isRegistered = true
  · rw [if_pos ⟨rfl, hregistered⟩] at hperm
    have herase := hperm.erase id
    simpa using herase
  · -- the id has no entry: no other read of the torrent has it
    rw [if_neg fun hand => hregistered hand.2, nil_append] at hperm
    have hdistinct := h.distinct
    rw [filterMap_cons, hid] at hdistinct
    have hnotMem : id ∉ s.scheduler.idsOf read.infoHash := fun hmem =>
      (List.nodup_cons.mp hdistinct).1 (mem_readerIds_of_registered (hperm.mem_iff.mp hmem))
    rw [erase_of_not_mem hnotMem]
    exact hperm

lemma Tracks.answered (hhandles : t.handles = s.handles) (haccepted : t.accepted = s.accepted)
    (hsized : t.scheduler.Sized pieceCount)
    (hnext : t.scheduler.nextReadId = s.scheduler.nextReadId)
    (hids : ∀ k, t.scheduler.idsOf k = match read.readerId with
      | some id => if k = read.infoHash then (s.scheduler.idsOf k).erase id
          else s.scheduler.idsOf k
      | none => s.scheduler.idsOf k) : Tracks pieceCount t others starting := by
  obtain ⟨n, hn, hroom, hlt⟩ := h.handed
  have hdistinct := h.distinct
  rw [filterMap_cons] at hlt hdistinct
  have hsub : ∀ id ∈ others.filterMap PendingRead.readerId, id < n := by
    intro id hid
    apply hlt
    split
    · exact hid
    · exact mem_cons_of_mem _ hid
  refine ⟨hsized, (List.forall_mem_cons.mp h.known).2, (List.forall_mem_cons.mp h.phase).2,
    ?_, ?_, ?_, ⟨n, hnext.trans hn, ?_, hsub⟩⟩
  · intro k hk
    rw [hhandles] at hk
    have hold := h.ids k hk
    rw [hids]
    cases hid : read.readerId with
    | none => rwa [registeredIds_cons_of_free others k hid] at hold
    | some id =>
      dsimp only
      by_cases hother : k = read.infoHash
      · subst hother
        rw [if_pos rfl]
        exact h.perm_erase hid hk
      · rw [if_neg hother]
        rwa [registeredIds_cons, if_neg fun hand => hother hand.1.symm, nil_append] at hold
  · intro k hk
    rw [hhandles] at hk
    rw [hids, h.gone k hk]
    split
    · split <;> rfl
    · rfl
  · split at hdistinct
    · exact hdistinct
    · exact (List.nodup_cons.mp hdistinct).2
  · rw [haccepted]
    rw [countP_cons] at hroom
    exact Nat.le_trans (by omega) hroom

lemma finishRead_spec (result : ReadResult) :
    ∃ t, s.finishRead read result = some t ∧ Tracks pieceCount t others starting := by
  unfold finishRead
  cases hid : read.readerId with
  | none => exact ⟨_, rfl, h.answered rfl rfl h.sized rfl fun k => by rw [hid]; rfl⟩
  | some id =>
    obtain ⟨u, hreleased, hframe, hsized, hnext, hids⟩ :=
      releaseReader_spec h.sized (h.gone read.infoHash) id
    refine ⟨u.send read.reply result, by simp [hreleased], ?_⟩
    refine Tracks.answered (t := u.send read.reply result) h hframe.handles hframe.accepted hsized
      hnext fun k => ?_
    rw [hid]
    exact hids k

end

/-! ### Handles -/

lemma registeredIds_eq_nil {infoHash : Str} (h : ∀ r ∈ parked, r.infoHash ≠ infoHash) :
    registeredIds parked infoHash = [] := by
  apply List.filterMap_eq_nil_iff.mpr
  intro r hr
  rw [if_neg fun hand => h r hr hand.1]

lemma Tracks.addHandle (h : Tracks pieceCount s parked starting) {infoHash : Str}
    (hnew : infoHash ∉ s.handles) (hparked : ∀ r ∈ parked, r.infoHash ≠ infoHash)
    (pieceLength : ℤ) {numPieces : ℤ} (hcount : (wrapI32 numPieces).toNat = pieceCount infoHash) :
    Tracks pieceCount (s.addHandle infoHash pieceLength numPieces) parked starting := by
  obtain ⟨hsized, hsame⟩ := PieceScheduler.initTorrent_spec h.sized hcount pieceLength
  refine ⟨hsized, h.known, h.phase, fun k hk => ?_, fun k hk => ?_, h.distinct, ?_⟩
  · change ((s.scheduler.initTorrent _ _ _).idsOf k).Perm _
    rw [hsame.idsOf_eq]
    rcases Finset.mem_insert.mp hk with rfl | hold
    · rw [h.gone k hnew, registeredIds_eq_nil hparked]
    · exact h.ids k hold
  · change (s.scheduler.initTorrent _ _ _).idsOf k = []
    rw [hsame.idsOf_eq]
    exact h.gone k fun hold => hk (Finset.mem_insert_of_mem hold)
  · change ∃ n, (s.scheduler.initTorrent _ _ _).nextReadId = n % 2 ^ 64 ∧ _
    rw [hsame.nextReadId]
    exact h.handed

lemma Tracks.removeHandle (h : Tracks pieceCount s parked starting) (infoHash : Str) :
    Tracks pieceCount (s.removeHandle infoHash) parked starting := by
  obtain ⟨hsized, hids⟩ := PieceScheduler.removeTorrent_spec h.sized infoHash
  refine ⟨hsized, h.known, h.phase, fun k hk => ?_, fun k hk => ?_, h.distinct, h.handed⟩
  · obtain ⟨hne, hold⟩ := Finset.mem_erase.mp hk
    show ((s.scheduler.removeTorrent infoHash).idsOf k).Perm _
    rw [hids, if_neg hne]
    exact h.ids k hold
  · show (s.scheduler.removeTorrent infoHash).idsOf k = []
    rw [hids]
    split
    · rfl
    · next hne => exact h.gone k fun hold => hk (Finset.mem_erase.mpr ⟨hne, hold⟩)

/-! ### The start of a read -/

lemma Tracks.start {number : ℕ} (h : Tracks pieceCount s parked [number])
    (hknown : Known pieceCount read) (hfree : read.readerId = none) :
    Tracks pieceCount s (read :: parked) [] := by
  obtain ⟨n, hnext, hroom, hlt⟩ := h.handed
  have hreaders : (read :: parked).filterMap PendingRead.readerId =
      parked.filterMap PendingRead.readerId := by
    rw [filterMap_cons, hfree]
  refine ⟨h.sized, List.forall_mem_cons.mpr ⟨hknown, h.known⟩,
    List.forall_mem_cons.mpr ⟨fun _ => hfree, h.phase⟩, fun k hk => ?_, h.gone,
    hreaders ▸ h.distinct, ⟨n, hnext, ?_, hreaders ▸ hlt⟩⟩
  · rw [registeredIds_cons_of_free parked k hfree]
    exact h.ids k hk
  · rw [countP_cons, hfree, isNone_none, if_pos rfl]
    exact hroom

lemma Tracks.begun {prepared : PreparedRead} {number : ℕ}
    (h : Tracks pieceCount s parked [number])
    (hhash : prepared.info.infoHash = .ok prepared.infoHash)
    (hcount : (toI32 prepared.info.numPieces).toNat = pieceCount prepared.infoHash)
    (hbound : s.accepted ≤ 2 ^ 64) (hbegun : Begun s prepared number p) :
    Tracks pieceCount p.state (p.read :: parked) [] ∧
      (p.result ≠ none → p.read.readerId = none) := by
  have hasked := h.of_quiet (quiet_ask s)
  cases hbegun with
  | settling now now' =>
    exact ⟨(hasked.of_quiet (quiet_ask _)).start ⟨hhash, hcount⟩ rfl, fun hne => absurd rfl hne⟩
  | waiting now steps =>
    have hstart : Tracks pieceCount s.ask.2 (.new prepared number now :: parked) [] :=
      hasked.start ⟨hhash, hcount⟩ rfl
    have heffect := steps.effect hstart.sized ⟨hhash, hcount⟩ fun _ => rfl
    refine ⟨hstart.of_effect heffect hbound, fun hne => ?_⟩
    obtain ⟨result, hresult⟩ := Option.ne_none_iff_exists'.mp hne
    exact heffect.readerId_of_ended hresult

end Books

/-! ### Acts keep the books -/

/-- The books within an iteration. Only the command that removes a handle leaves parked reads
without one. -/
structure Booked (pieceCount : Str → ℕ) (it : Iteration) (l : Ledger) : Prop where
  tracks : Tracks pieceCount l.state l.parked l.starting
  handles : ∀ read ∈ l.parked, read.infoHash ∈ l.state.handles ∨
    it.received = .command (.removeHandle read.infoHash)
  bound : l.state.accepted ≤ 2 ^ 64

section Loop

variable {pieceCount : Str → ℕ} {s t : EngineState} {it : Iteration} {l l' : Ledger}

lemma Tracks.polled {before after : List PendingRead} {read : PendingRead} {p : Polled}
    (h : Tracks pieceCount s (before ++ read :: after) []) (hbound : s.accepted ≤ 2 ^ 64)
    (hpolled : s.pollRead read = some p) :
    Tracks pieceCount p.state (p.read :: (before ++ after)) [] := by
  have hfront := h.perm perm_middle
  exact hfront.of_effect ((pollRead_stepped hpolled).effect hfront.sized
    (hfront.known read mem_cons_self) (hfront.phase read mem_cons_self)) hbound

lemma Act.booked (hreports : it.Reports pieceCount) (h : Act it l l')
    (hbound : l'.state.accepted ≤ 2 ^ 64) (hl : Booked pieceCount it l) :
    Booked pieceCount it l' := by
  obtain ⟨htracks, hhandles, hbound₀⟩ := hl
  cases h with
  | outside | move | stop =>
    exact ⟨htracks.of_readers htracks.sized (fun _ => rfl) rfl rfl rfl, hhandles, hbound⟩
  | pieceReady s parked infoHash piece =>
    have hquiet := quiet_pieceReady s infoHash piece
    exact ⟨htracks.of_quiet hquiet, hquiet.handles.symm ▸ hhandles, hbound⟩
  | addHandle s parked starting pieceLength new tells =>
    obtain ⟨c, info, n, _, hreceived, hinfo, hhash, hanswer⟩ := tells
    have hcount := (hreports.torrent c info _ hreceived hinfo hhash).2 n _ _ hanswer
    refine ⟨htracks.addHandle new (fun r hr => ?_) _ hcount, fun r hr => ?_, hbound⟩
    · rintro rfl
      rcases hhandles r hr with hold | hremoved
      · exact new hold
      · rw [hremoved] at hreceived
        cases hreceived
        cases hinfo
    · exact (hhandles r hr).imp_left Finset.mem_insert_of_mem
  | removeHandle s parked received =>
    rename_i infoHash
    refine ⟨htracks.removeHandle infoHash, fun r hr => ?_, hbound⟩
    by_cases hsame : r.infoHash = infoHash
    · exact .inr (hsame ▸ received)
    · exact (hhandles r hr).imp_left fun hold => Finset.mem_erase.mpr ⟨hsame, hold⟩
  | accept s parked =>
    obtain ⟨n, hnext, hroom, hlt⟩ := htracks.handed
    exact ⟨⟨htracks.sized, htracks.known, htracks.phase, htracks.ids, htracks.gone,
      htracks.distinct, n, hnext, Nat.add_le_add_right hroom 1, hlt⟩, hhandles, hbound⟩
  | refuse s parked number result =>
    obtain ⟨n, hnext, hroom, hlt⟩ := htracks.handed
    exact ⟨⟨htracks.sized, htracks.known, htracks.phase, htracks.ids, htracks.gone,
      htracks.distinct, n, hnext, le_of_succ_le hroom, hlt⟩, hhandles, hbound⟩
  | @serve s parked prepared number p result asks begun ended =>
    obtain ⟨c, hreceived, hinfo, hhash⟩ := asks
    have hcount := (hreports.torrent c _ _ hreceived hinfo hhash).1
    obtain ⟨hbegun, hfree⟩ := htracks.begun hhash hcount hbound₀ begun
    have hnone := hfree (by rw [ended]; exact some_ne_none _)
    refine ⟨?_, begun.passed.1.handles.symm ▸ hhandles, hbound⟩
    exact hbegun.answered rfl rfl hbegun.sized rfl fun k => by rw [hnone]; rfl
  | @park s parked prepared number p asks handle begun stays =>
    obtain ⟨c, hreceived, hinfo, hhash⟩ := asks
    obtain ⟨hframe, -, hsame⟩ := begun.passed
    have hcount := (hreports.torrent c _ _ hreceived hinfo hhash).1
    have hbegun := (htracks.begun hhash hcount hbound₀ begun).1
    refine ⟨hbegun.perm (perm_append_singleton _ _).symm, ?_, hbound⟩
    rw [hframe.handles]
    refine List.forall_mem_append.mpr ⟨hhandles, List.forall_mem_singleton.mpr (.inl ?_)⟩
    rw [hsame]
    exact handle
  | @poll s before after read p polled stays =>
    have hpassed := (pollRead_stepped polled).passed
    refine ⟨(htracks.polled hbound₀ polled).perm List.perm_middle.symm, ?_, hbound⟩
    obtain ⟨hbefore, hread⟩ := List.forall_mem_append.mp hhandles
    rw [hpassed.handles]
    refine List.forall_mem_append.mpr ⟨hbefore, List.forall_mem_cons.mpr ⟨?_,
      (List.forall_mem_cons.mp hread).2⟩⟩
    rw [hpassed.infoHash]
    exact (List.forall_mem_cons.mp hread).1
  | @finish s t before after read p result polled ended finished =>
    obtain ⟨t', hfinish, hbooks⟩ := finishRead_spec (htracks.polled hbound₀ polled) result
    obtain rfl := Option.some.inj (finished.symm.trans hfinish)
    refine ⟨hbooks, ?_, hbound⟩
    obtain ⟨hbefore, hread⟩ := List.forall_mem_append.mp hhandles
    obtain ⟨outside, scheduler, rfl⟩ := finishRead_cases finished
    rw [(pollRead_stepped polled).passed.handles]
    exact List.forall_mem_append.mpr ⟨hbefore, (List.forall_mem_cons.mp hread).2⟩
  | @abort s t after read finished =>
    obtain ⟨t', hfinish, hbooks⟩ := finishRead_spec htracks (.error .aborted)
    obtain rfl := Option.some.inj (finished.symm.trans hfinish)
    obtain ⟨outside, scheduler, rfl⟩ := finishRead_cases finished
    exact ⟨hbooks, (List.forall_mem_cons.mp hhandles).2, hbound⟩

lemma Booked.of_acts (hl : Booked pieceCount it l) (hreports : it.Reports pieceCount)
    (h : Acts it l l') (hbound : l'.state.accepted ≤ 2 ^ 64) : Booked pieceCount it l' := by
  induction h with
  | refl => exact hl
  | tail _ act ih => exact act.booked hreports hbound (ih (act.grows.2.1.trans hbound))

/-! ### Iterations do not panic -/

section

variable (hreports : it.Reports pieceCount)
include hreports

lemma exists_pollEach (rest : List PendingRead) :
    ∀ {s : EngineState} {remaining : List PendingRead},
      Booked pieceCount it ⟨s, remaining ++ rest, []⟩ →
        ∃ t, s.pollEach remaining rest = some t := by
  induction rest with
  | nil => exact fun _ => ⟨_, rfl⟩
  | cons read rest ih =>
    intro s remaining h
    obtain ⟨p, hp⟩ := exists_pollRead ⟨h.tracks.sized, h.tracks.known read (by simp)⟩
    have haccepted := (pollRead_stepped hp).passed.accepted
    unfold pollEach
    rw [hp, bind_some]
    cases hresult : p.result with
    | some result =>
      obtain ⟨u, hu, -⟩ := finishRead_spec (h.tracks.polled h.bound hp) result
      have hact : Act it ⟨s, remaining ++ read :: rest, []⟩ ⟨u, remaining ++ rest, []⟩ :=
        .finish remaining rest hp hresult hu
      dsimp only
      rw [hu, bind_some]
      refine ih (hact.booked hreports ?_ h)
      obtain ⟨outside, scheduler, rfl⟩ := finishRead_cases hu
      exact haccepted.le.trans h.bound
    | none =>
      have hact : Act it ⟨s, remaining ++ read :: rest, []⟩
          ⟨p.state, remaining ++ p.read :: rest, []⟩ := .poll remaining rest hp hresult
      refine ih ?_
      rw [append_assoc]
      exact hact.booked hreports (haccepted.le.trans h.bound) h

lemma exists_poll (h : Booked pieceCount it s.ledger) :
    ∃ t, (s.drainPieceFinished it.finished).pollPendingReads = some t := by
  obtain ⟨hdrain, hquiet⟩ := acts_drainPieceFinished it s.pendingReads it.finished s
  refine exists_pollEach hreports _ (h.of_acts hreports ?_ (hquiet.accepted.le.trans h.bound))
  rw [hquiet.pendingReads]
  exact hdrain.tail (.move _ _ _ [])

lemma exists_stop (h : Booked pieceCount it s.ledger) : ∃ t, s.stop = some t := by
  -- each abort only needs the books of the reads that are left
  have habort : ∀ (parked : List PendingRead) (u : EngineState),
      Booked pieceCount it ⟨u, parked, []⟩ →
        ∃ t, parked.foldlM (fun s read => s.finishRead read (.error .aborted)) u = some t := by
    intro parked
    induction parked with
    | nil => exact fun u _ => ⟨u, rfl⟩
    | cons read parked ih =>
      intro u hu
      obtain ⟨v, hv, -⟩ := finishRead_spec hu.tracks (.error .aborted)
      have hact : Act it ⟨u, read :: parked, []⟩ ⟨v, parked, []⟩ := .abort parked hv
      obtain ⟨t, ht⟩ := ih v (hact.booked hreports (by
        obtain ⟨outside, scheduler, rfl⟩ := finishRead_cases hv
        exact hu.bound) hu)
      exact ⟨t, by rw [foldlM_cons, hv]; exact ht⟩
  obtain ⟨t, ht⟩ := habort s.pendingReads { s with pendingReads := [] }
    ⟨h.tracks.of_readers h.tracks.sized (fun _ => rfl) rfl rfl rfl, h.handles, h.bound⟩
  exact ⟨_, by rw [stop, abortPendingReads, ht]; rfl⟩

lemma exists_startRead {info : TorrentInfo} {fileIndex : ℤ} {offset size : ℕ}
    (hreceived : it.received = .command (.readFileRange info fileIndex offset size))
    (houtside : s.outside = it.answers) (h : Booked pieceCount it s.ledger)
    (hbound : s.accepted + 1 ≤ 2 ^ 64) : ∃ t, s.startRead info fileIndex offset size = some t := by
  unfold startRead
  dsimp only
  split
  · exact ⟨_, rfl⟩
  · rcases hprepare : (ask { s with accepted := s.accepted + 1 }).2.prepareRead info fileIndex
      offset size with ⟨u, _ | _ | prepared⟩
    · exact ⟨_, rfl⟩
    · exact ⟨_, rfl⟩
    · obtain ⟨hacts, haccepted, -, hasks⟩ := acts_prepareRead hreceived houtside hprepare
      obtain ⟨⟨c, hcommand, hinfo, hhash⟩, -⟩ := hasks prepared rfl
      have hbooked := h.of_acts hreports hacts (haccepted.le.trans hbound)
      have hknown := (hreports.torrent c _ _ hcommand hinfo hhash).1
      unfold admitRead
      dsimp only
      split
      · exact ⟨_, rfl⟩
      · have hready : Ready pieceCount u.ask.2 (.new prepared s.accepted u.ask.1.now) :=
          ⟨(quiet_ask u).sized pieceCount hbooked.tracks.sized, hhash, hknown⟩
        obtain ⟨p, hp⟩ := exists_afterSettling hready
        rw [hp]
        exact ⟨_, rfl⟩

lemma exists_handleCommand {c : Command} (hreceived : it.received = .command c)
    (houtside : s.outside = it.answers) (h : Booked pieceCount it s.ledger)
    (hbound : s.accepted + (if c.isRead then 1 else 0) ≤ 2 ^ 64) :
    ∃ t stops, s.handleCommand c = some (t, stops) := by
  cases c with
  | readFileRange info fileIndex offset size =>
    obtain ⟨t, ht⟩ := exists_startRead hreports hreceived houtside h hbound
    exact ⟨t, false, by simp [handleCommand, ht]⟩
  | getPiecesStatus infoHash numPieces =>
    exact ⟨s, false, if_neg (hreports.status infoHash numPieces hreceived).not_gt⟩
  | _ => exact ⟨_, _, rfl⟩

lemma exists_step (h : Booked pieceCount it s.ledger)
    (hbound : s.accepted + (if it.isRead then 1 else 0) ≤ 2 ^ 64) : ∃ t, s.step it = some t := by
  unfold step
  split
  · have hasked : Booked pieceCount it (ledger { s with outside := it.answers }) :=
      ⟨h.tracks.of_readers h.tracks.sized (fun _ => rfl) rfl rfl rfl, h.handles, h.bound⟩
    dsimp only
    split
    · exact exists_stop hreports hasked
    · exact exists_poll hreports hasked
    · next c hreceived =>
      have hread : it.isRead = c.isRead := by simp [Iteration.isRead, hreceived]
      rw [hread] at hbound
      obtain ⟨u, stops, hu⟩ := exists_handleCommand hreports hreceived rfl hasked hbound
      obtain ⟨hacts, haccepted, -⟩ := acts_handleCommand hreceived rfl hu
      have hbooked := hasked.of_acts hreports hacts (haccepted.le.trans hbound)
      rw [hu, bind_some]
      split
      · exact exists_stop hreports hbooked
      · exact exists_poll hreports hbooked
  · exact ⟨s, rfl⟩

end

/-- What holds between two iterations. -/
structure Balanced (pieceCount : Str → ℕ) (s : EngineState) : Prop where
  tracks : Tracks pieceCount s s.pendingReads []
  counted : Counted s.ledger
  handles : ∀ read ∈ s.pendingReads, read.infoHash ∈ s.handles
  stopped : s.isRunning = false → s.pendingReads = []

lemma step_spec (h : Balanced pieceCount s) (hreports : it.Reports pieceCount)
    (hbound : s.accepted + (if it.isRead then 1 else 0) ≤ 2 ^ 64) :
    ∃ t, s.step it = some t ∧ Balanced pieceCount t ∧
      t.accepted ≤ s.accepted + (if it.isRead then 1 else 0) ∧
      (t.isRunning = true →
        s.isRunning = true ∧ t.accepted = s.accepted + if it.isRead then 1 else 0) := by
  have hbooked : Booked pieceCount it s.ledger :=
    ⟨h.tracks, fun read hread => .inl (h.handles read hread), (Nat.le_add_right _ _).trans hbound⟩
  obtain ⟨t, ht⟩ := exists_step hreports hbooked hbound
  refine ⟨t, ht, ?_⟩
  by_cases hrunning : s.isRunning = true
  · obtain ⟨hacts, hle, haccepted, hhandles, hstopped⟩ := traced_of_step hrunning ht
    refine ⟨⟨(hbooked.of_acts hreports hacts (hle.trans hbound)).tracks,
      invariant_of_step Act.counted h.counted ht, hhandles, hstopped⟩, hle,
      fun hon => ⟨hrunning, haccepted hon⟩⟩
  · rw [step, if_neg hrunning] at ht
    cases ht
    exact ⟨h, Nat.le_add_right _ _, fun hon => absurd hon hrunning⟩

lemma run_spec (its : List Iteration) (hreports : ∀ it ∈ its, it.Reports pieceCount) :
    ∀ s : EngineState, Balanced pieceCount s → s.accepted + its.countP Iteration.isRead ≤ 2 ^ 64 →
      ∃ t, Run.runFrom step s its = some t ∧ Balanced pieceCount t ∧ (t.isRunning = true →
          s.isRunning = true ∧ t.accepted = s.accepted + its.countP Iteration.isRead) := by
  induction its with
  | nil => exact fun s h _ => ⟨s, rfl, h, fun hon => ⟨hon, rfl⟩⟩
  | cons it its ih =>
    intro s h hbound
    obtain ⟨hfirst, hrest⟩ := List.forall_mem_cons.mp hreports
    rw [countP_cons] at hbound ⊢
    obtain ⟨u, hu, hbooks, hle, hcount⟩ := step_spec h hfirst (by omega)
    obtain ⟨t, ht, hbalanced, hran⟩ := ih hrest u hbooks (by omega)
    refine ⟨t, Run.runFrom_cons_eq_some.mpr ⟨u, hu, ht⟩, hbalanced, fun hon => ?_⟩
    obtain ⟨huon, haccepted⟩ := hran hon
    obtain ⟨hson, hstep⟩ := hcount huon
    refine ⟨hson, ?_⟩
    omega

lemma balanced_new (config : PiecePriorityConfig) (cacheCapacityBytes readTimeoutSecs : ℕ)
    (peerDiscoveryWaitSecs : ℕ) (peerWaitCapSecs : Option ℕ) (noSeederReadTimeoutSecs : ℕ)
    (outside : ℕ → Answers) :
    Balanced pieceCount (new config cacheCapacityBytes readTimeoutSecs peerDiscoveryWaitSecs
      peerWaitCapSecs noSeederReadTimeoutSecs outside) := by
  refine ⟨⟨⟨⟨?_, ?_⟩, ?_⟩, ?_, ?_, ?_, ?_, ?_, ⟨0, rfl, ?_, ?_⟩⟩, ?_, ?_, ?_⟩
  all_goals simp [new, PieceScheduler.new, PieceScheduler.readersOf, PieceScheduler.idsOf,
    Counted, ledger]

end Loop

/-! ### Every run -/

/-- Each read handed to the engine has one reply or is parked; once the loop has ended, none is
parked. -/
def AnsweredOnce (s : EngineState) : Prop :=
  (s.replies.map Prod.fst ++ s.pendingReads.map PendingRead.reply).Perm (List.range s.accepted) ∧
    (s.isRunning = false → s.pendingReads = [])

/-- The readers of each torrent are those of its parked reads, each once. -/
def ReadersMatch (s : EngineState) : Prop :=
  ∀ infoHash, (s.scheduler.idsOf infoHash).Perm (registeredIds s.pendingReads infoHash) ∧
    (s.scheduler.idsOf infoHash).Nodup

lemma registeredIds_sublist (parked : List PendingRead) (infoHash : Str) :
    (registeredIds parked infoHash).Sublist (parked.filterMap PendingRead.readerId) := by
  induction parked with
  | nil => exact .slnil
  | cons read parked ih =>
    rw [registeredIds_cons, filterMap_cons]
    split
    · cases read.readerId with
      | none => exact ih
      | some id => exact ih.cons_cons id
    · cases read.readerId with
      | none => exact ih
      | some id => exact ih.cons id

variable {s : EngineState}

lemma Balanced.readersMatch {pieceCount : Str → ℕ}
    (h : Balanced pieceCount s) : s.ReadersMatch := by
  intro infoHash
  have hperm : (s.scheduler.idsOf infoHash).Perm (registeredIds s.pendingReads infoHash) := by
    by_cases hhandle : infoHash ∈ s.handles
    · exact h.tracks.ids infoHash hhandle
    · rw [h.tracks.gone infoHash hhandle, registeredIds_eq_nil]
      rintro read hread rfl
      exact hhandle (h.handles read hread)
  exact ⟨hperm, hperm.nodup_iff.mpr
    (h.tracks.distinct.sublist (registeredIds_sublist s.pendingReads infoHash))⟩

/-- Over every run of at most `2 ^ 64` reads, whatever the outside answers as long as the handles
tell the piece count of their torrent: the engine thread does not panic, every read handed to
`start_read` is answered once or parked, all are answered when the loop has ended, and between
iterations the readers of each torrent are exactly those of its parked reads. -/
theorem reads_answered_once_of_run (config : PiecePriorityConfig)
    (cacheCapacityBytes readTimeoutSecs peerDiscoveryWaitSecs : ℕ) (peerWaitCapSecs : Option ℕ)
    (noSeederReadTimeoutSecs : ℕ) (outside : ℕ → Answers) (pieceCount : Str → ℕ)
    (its : List Iteration) (hreports : ∀ it ∈ its, it.Reports pieceCount)
    (hbound : its.countP Iteration.isRead ≤ 2 ^ 64) :
    ∃ t, Run.runFrom step (new config cacheCapacityBytes readTimeoutSecs peerDiscoveryWaitSecs
        peerWaitCapSecs noSeederReadTimeoutSecs outside) its = some t ∧
      t.AnsweredOnce ∧ t.ReadersMatch ∧
      (t.isRunning = true → t.accepted = its.countP Iteration.isRead) := by
  obtain ⟨t, ht, hbooks, hcount⟩ := run_spec its hreports
    (new config cacheCapacityBytes readTimeoutSecs peerDiscoveryWaitSecs peerWaitCapSecs
      noSeederReadTimeoutSecs outside)
    (balanced_new config cacheCapacityBytes readTimeoutSecs peerDiscoveryWaitSecs peerWaitCapSecs
      noSeederReadTimeoutSecs outside) (by simpa [new] using hbound)
  refine ⟨t, ht, ⟨?_, hbooks.stopped⟩, hbooks.readersMatch, fun hon => ?_⟩
  · simpa [Counted, ledger] using hbooks.counted
  · simpa [new] using (hcount hon).2

/-! ### Runs of one torrent -/

def sampleInfo : TorrentInfo := ⟨.ok ['a'], 4, 2, 8, some [8]⟩

def unlistedInfo : TorrentInfo := ⟨.ok ['a'], 4, 2, 8, none⟩

@[simps]
def sampleAnswers : Answers where
  now := 0
  stopping := false
  createDirs := .ok ()
  addTorrent := .ok ()
  isValid := true
  status := .ok ⟨.downloading, 0, 0⟩
  filePieceInfo := .ok ⟨0, 2, 0⟩
  torrentInfo := .ok (4, 2)
  havePiece := fun _ => false
  forceRecheck := false
  hasStalePiece := fun _ => false
  isPieceComplete := fun _ => false
  hasPiece := fun _ => false
  readPiece := fun _ => none
  maxCacheSize := 8

def failedStatus : Answers := { sampleAnswers with status := .error ⟨-1, []⟩ }

def sampleConfig : PiecePriorityConfig := ⟨1, 7, fun _ => 1, 1, 0⟩

def sampleEngine : EngineState := new sampleConfig 8 60 30 none 10 fun _ => sampleAnswers

def readFirstPiece (info : TorrentInfo) (answers : ℕ → Answers) : Iteration :=
  ⟨.command (.readFileRange info 0 0 4), [], answers⟩

def sampleRun : List Iteration :=
  [readFirstPiece sampleInfo fun _ => sampleAnswers, ⟨.timeout, [], fun _ => sampleAnswers⟩,
    ⟨.disconnected, [], fun _ => sampleAnswers⟩]

lemma reports_readFirstPiece (info : TorrentInfo) (hcount : info.numPieces = 2)
    (answers : ℕ → Answers) (hanswers : ∀ n, (answers n).torrentInfo = .ok (4, 2)) :
    (readFirstPiece info answers).Reports fun _ => 2 := by
  refine ⟨?_, fun _ _ h => by cases h⟩
  rintro c info' infoHash ⟨⟩ ⟨⟩ -
  constructor
  · rw [hcount]
    show (toI32 2).toNat = 2
    decide
  · intro n pieceLength numPieces hinfo
    obtain ⟨-, rfl⟩ := Prod.mk.inj (Except.ok.inj ((hanswers n).symm.trans hinfo))
    show (wrapI32 2).toNat = 2
    decide

theorem reads_answered_once_of_sampleRun :
    (∀ it ∈ sampleRun, it.Reports fun _ => 2) ∧ sampleRun.countP Iteration.isRead ≤ 2 ^ 64 ∧
      ∃ t, Run.runFrom step sampleEngine sampleRun = some t ∧ t.AnsweredOnce ∧ t.ReadersMatch ∧
        (t.isRunning = true → t.accepted = sampleRun.countP Iteration.isRead) := by
  have hreports : ∀ it ∈ sampleRun, it.Reports fun _ => 2 := by
    have hread := reports_readFirstPiece sampleInfo rfl (fun _ => sampleAnswers) fun _ => rfl
    refine List.forall_mem_cons.mpr ⟨hread, List.forall_mem_cons.mpr ⟨?_, ?_⟩⟩
    · exact ⟨fun _ _ _ h => (by cases h), fun _ _ h => by cases h⟩
    · refine List.forall_mem_cons.mpr ⟨?_, List.forall_mem_nil _⟩
      exact ⟨fun _ _ _ h => (by cases h), fun _ _ h => by cases h⟩
  have hbound : sampleRun.countP Iteration.isRead ≤ 2 ^ 64 := by decide
  exact ⟨hreports, hbound, reads_answered_once_of_run sampleConfig 8 60 30 none 10
    (fun _ => sampleAnswers) (fun _ => 2) sampleRun hreports hbound⟩

def firstPiece : ReadRange := ⟨4, 4, 2, 8, 0, 4, 0, 0⟩

/-- The status of the torrent gets lost after the first poll of an iteration. -/
def statusLost (n : ℕ) : Answers := if n < 11 then sampleAnswers else failedStatus

/-- Three ways in which a read loses its reply or its reader. A handle that reports fewer pieces
than the torrent ends the engine thread in the middle of the read, and so does a status of a
negative number of pieces while the read is parked. And when the ids have come round to the one of a
read that is still parked, the next read is given that id and takes the other one's reader away when
it fails. -/
theorem reads_lost_by_piece_count_or_id_wrap :
    Run.runFrom step sampleEngine
        [readFirstPiece sampleInfo fun _ => { sampleAnswers with torrentInfo := .ok (4, 1) }] =
      none ∧
    Run.runFrom step sampleEngine [readFirstPiece sampleInfo fun _ => sampleAnswers,
      ⟨.command (.getPiecesStatus ['a'] (-1)), [], fun _ => sampleAnswers⟩] = none ∧
    ∃ s, Run.runFrom step sampleEngine [readFirstPiece sampleInfo fun _ => sampleAnswers] = some s ∧
      registeredIds s.pendingReads ['a'] = [0] ∧ s.scheduler.idsOf ['a'] = [0] ∧
      ∃ t, step { s with scheduler := { s.scheduler with nextReadId := addU64 (2 ^ 64 - 1) 1 } }
          (readFirstPiece unlistedInfo statusLost) = some t ∧
        t.isRunning = true ∧ registeredIds t.pendingReads ['a'] = [0] ∧
        t.scheduler.idsOf ['a'] = [] := by
  decide +kernel

end EngineState

end TorrentFs.Download
