import TorrentFs.Fuse.PendingTable
import TorrentFs.Lib.Run

/-!
# Inserts that wait for a slot

An insert that finds the table full sleeps on `slot_freed`. A group is removed under the lock, but
the sleepers are notified later, when the replies have been given out, and by
`cancel_by_torrent_id` and `expire` only if a waiter was removed. Between the removal and the
notification other inserts can take the slot. No sleeper is left behind: whenever one could go on, a
notification is due.
-/

namespace TorrentFs.Fuse

open List Option FinMap PendingTable

variable {R : Type*}

/-- The table with the inserts that wait for a slot, and the calls of `notify_all` that are due from
steps that have changed the table. -/
structure WaitingTable (R : Type*) where
  table : PendingTable R
  asleep : List (PendingEntry R × RangeKey)
  /-- The inserts that have been woken and are about to take the lock again. -/
  awake : List (PendingEntry R × RangeKey)
  due : ℕ

inductive TableAction (R : Type*) where
  | insert (entry : PendingEntry R) (key : RangeKey)
  | retry (i : ℕ)
  | resolve (id : ℕ) (answer : Answer)
  | cancel (torrentId : ℤ) (ids : List ℕ)
  | expire (now : ℕ) (ids : List ℕ)
  /-- A due notification is sent: every sleeper wakes. -/
  | notify
  /-- A sleeper wakes by itself. -/
  | wake (i : ℕ)

namespace WaitingTable

def new : WaitingTable R := ⟨.new, [], [], 0⟩

/-- A pass of the loop of `insert`. The check and the sleep are one step, since `wait` gives up the
lock. -/
def pass (s : WaitingTable R) (p : PendingEntry R × RangeKey) : WaitingTable R :=
  match s.table.insertOnce p.1 p.2 with
  | .done table _ => { s with table }
  | .full => { s with asleep := p :: s.asleep }
  | .panicked => s

def dropped (s : WaitingTable R) (result : Option (PendingTable R × List R)) :
    Option (WaitingTable R) :=
  result.map fun (table, removed) =>
    { s with table, due := if removed = [] then s.due else s.due + 1 }

def step (s : WaitingTable R) : TableAction R → Option (WaitingTable R)
  | .insert entry key => some (s.pass (entry, key))
  | .retry i => s.awake[i]?.map fun p => { s with awake := s.awake.eraseIdx i }.pass p
  | .resolve id answer =>
    match s.table.resolveWith id answer with
    | (table, some _) => some { s with table, due := s.due + 1 }
    | (_, none) => some s
  | .cancel torrentId ids => s.dropped (s.table.cancelByTorrentId torrentId ids)
  | .expire now ids => s.dropped (s.table.expire now ids)
  | .notify =>
    if 0 < s.due then
      some { s with asleep := [], awake := s.asleep ++ s.awake, due := s.due - 1 }
    else none
  | .wake i => s.asleep[i]?.map fun p =>
      { s with asleep := s.asleep.eraseIdx i, awake := p :: s.awake }

/-- The table has a free slot or a live group of the range. -/
def CouldGoOn (t : PendingTable R) (key : RangeKey) : Prop :=
  t.groups.keys.card < maxPending ∨
    ∃ id, t.byRange.get key = some id ∧ (t.groups.get id).isSome

/-- No sleeper that could go on is left without a notification. -/
structure Attended (s : WaitingTable R) : Prop where
  occupied : ∀ id g, s.table.groups.get id = some g → g.waiters ≠ []
  due_pos : ∀ p ∈ s.asleep, CouldGoOn s.table p.2 → 0 < s.due

variable {s s' : WaitingTable R} {t t' : PendingTable R}

lemma dropWaiters_unchanged (q : PendingEntry R → Bool) (ids : List ℕ) : ∀ {t : PendingTable R}
    {removed removed' : List R}, (∀ id g, t.groups.get id = some g → g.waiters ≠ []) →
    PendingTable.dropWaiters q ids t removed = some (t', removed') →
      (∀ id g, t'.groups.get id = some g → g.waiters ≠ []) ∧
        ∃ out, removed' = removed ++ out ∧ (out = [] → t' = t) := by
  induction ids with
  | nil =>
    rintro t removed _ hoccupied ⟨⟩
    exact ⟨hoccupied, [], (append_nil _).symm, fun _ => rfl⟩
  | cons id ids ih =>
    intro t removed removed' hoccupied hdrop
    rw [PendingTable.dropWaiters] at hdrop
    split at hdrop
    · cases hdrop
    · next g hg =>
      rw [partition_eq_filter_filter] at hdrop
      dsimp only at hdrop
      split at hdrop
      · next hleft =>
        -- the group goes, and with it at least one waiter
        have hout : g.waiters.filter q ≠ [] := by
          intro hnone
          have hfilter := List.filter_eq_nil_iff.mp (List.isEmpty_iff.mp hleft)
          have hnone := List.filter_eq_nil_iff.mp hnone
          obtain ⟨w, hw⟩ := exists_mem_of_ne_nil _ (hoccupied id g hg)
          exact hfilter w hw (by simpa using hnone w hw)
        obtain ⟨hkept, out, rfl, -⟩ := ih (fun k g' hg' => by
          rw [get_erase] at hg'
          split at hg'
          · cases hg'
          · exact hoccupied k g' hg') hdrop
        refine ⟨hkept, _, append_assoc .., fun hnil => ?_⟩
        exact absurd (List.map_eq_nil_iff.mp (List.append_eq_nil_iff.mp hnil).1) hout
      · next hleft =>
        obtain ⟨hkept, out, rfl, hsame⟩ := ih (fun k g' hg' => by
          rw [get_insert] at hg'
          split at hg'
          · cases hg'
            exact fun heq => hleft (List.isEmpty_iff.mpr heq)
          · exact hoccupied k g' hg') hdrop
        refine ⟨hkept, _, append_assoc .., fun hnil => ?_⟩
        obtain ⟨hout, hrest⟩ := List.append_eq_nil_iff.mp hnil
        rw [hsame hrest]
        have hall : g.waiters.filter (fun w => !q w) = g.waiters := by
          refine List.filter_eq_self.mpr fun w hw => ?_
          have := List.filter_eq_nil_iff.mp (List.map_eq_nil_iff.mp hout) w hw
          simpa using this
        have hgroups : t.groups.insert id { g with waiters := g.waiters } = t.groups := by
          ext1 k
          rw [get_insert]
          split
          · next hk => rw [hk, hg]
          · rfl
        simp only [Function.comp_def, hall, hgroups]

lemma Attended.pass (h : s.Attended) (p : PendingEntry R × RangeKey) : (s.pass p).Attended := by
  unfold WaitingTable.pass insertOnce
  cases hrange : s.table.byRange.get p.2 with
  | some id =>
    cases hg : s.table.groups.get id with
    | none => simpa only [hg] using h
    | some g =>
      simp only [hg]
      refine ⟨fun k g' hg' => ?_, fun q hq hcould => h.due_pos q hq ?_⟩
      · rw [get_insert] at hg'
        split at hg'
        · cases hg'
          simp
        · exact h.occupied k g' hg'
      · -- the same groups are live
        refine hcould.imp (fun hfree => ?_) fun ⟨k, hk, hlive⟩ => ⟨k, hk, ?_⟩
        · rwa [keys_insert, Finset.insert_eq_of_mem (mem_keys_of_get hg)] at hfree
        · rw [get_insert] at hlive
          split at hlive
          · next hid => rw [hid, hg, isSome_some]
          · exact hlive
  | none =>
    by_cases hroom : s.table.groups.keys.card < maxPending
    · simp only [hroom, if_true]
      refine ⟨fun k g hg => ?_, fun q hq _ => h.due_pos q hq (.inl hroom)⟩
      rw [get_insert] at hg
      split at hg
      · cases hg
        simp
      · exact h.occupied k g hg
    · simp only [hroom, if_false]
      refine ⟨h.occupied, fun q hq hcould => ?_⟩
      rcases List.mem_cons.mp hq with rfl | hq
      · obtain hfree | ⟨id, hid, -⟩ := hcould
        · exact absurd hfree hroom
        · rw [hrange] at hid
          cases hid
      · exact h.due_pos q hq hcould

lemma Attended.dropped (h : s.Attended) {q : PendingEntry R → Bool} {ids : List ℕ}
    (hstep : s.dropped (PendingTable.dropWaiters q ids s.table []) = some s') : s'.Attended := by
  obtain ⟨⟨table, removed⟩, hdrop, rfl⟩ := Option.map_eq_some_iff.mp hstep
  obtain ⟨hoccupied, out, rfl, hsame⟩ := dropWaiters_unchanged q ids h.occupied hdrop
  refine ⟨hoccupied, fun p hp hcould => ?_⟩
  dsimp only
  split
  · next hnone =>
    obtain rfl := hsame hnone
    exact h.due_pos p hp hcould
  · omega

lemma Attended.resolve (h : s.Attended) {id : ℕ} {answer : Answer}
    (hstep : s.step (.resolve id answer) = some s') : s'.Attended := by
  simp only [WaitingTable.step, resolveWith, removeGroup] at hstep
  cases hg : s.table.groups.get id with
  | none =>
    simp only [hg, Option.some.injEq] at hstep
    exact hstep ▸ h
  | some g =>
    simp only [hg, Option.some.injEq] at hstep
    subst hstep
    refine ⟨fun k g' hg' => ?_, fun _ _ _ => Nat.succ_pos _⟩
    rw [get_erase] at hg'
    split at hg'
    · cases hg'
    · exact h.occupied k g' hg'

lemma Attended.step (h : s.Attended) {a : TableAction R} (hstep : s.step a = some s') :
    s'.Attended := by
  cases a with
  | insert entry key =>
    cases hstep
    exact h.pass _
  | retry i =>
    obtain ⟨p, -, rfl⟩ := Option.map_eq_some_iff.mp hstep
    have hless : Attended { s with awake := s.awake.eraseIdx i } := ⟨h.occupied, h.due_pos⟩
    exact hless.pass p
  | resolve id answer => exact h.resolve hstep
  | cancel | expire => exact h.dropped hstep
  | notify =>
    simp only [WaitingTable.step, ite_none_right_eq_some, Option.some.injEq] at hstep
    obtain ⟨-, rfl⟩ := hstep
    exact ⟨h.occupied, fun p hp => by cases hp⟩
  | wake i =>
    obtain ⟨p, -, rfl⟩ := Option.map_eq_some_iff.mp hstep
    exact ⟨h.occupied, fun q hq => h.due_pos q (mem_of_mem_eraseIdx hq)⟩

/-- In every interleaving, an insert that sleeps while there is a free slot or a live group of its
range is about to be woken. -/
theorem due_of_sleeper_could_go_on (actions : List (TableAction R)) (s : WaitingTable R)
    (hrun : Run.runFrom step new actions = some s) :
    ∀ p ∈ s.asleep, CouldGoOn s.table p.2 → 0 < s.due := by
  have hnew : Attended (new : WaitingTable R) := ⟨fun _ _ h => (nomatch h), fun _ h => (nomatch h)⟩
  exact (Run.invariant_of_run (fun _ _ _ h hstep => h.step hstep) hnew hrun).due_pos

def fill (n : ℕ) : List (TableAction ℕ) :=
  (List.range n).map fun i => .insert ⟨i, 1, 0⟩ ⟨[], 0, i, 1⟩

theorem due_after_resolution :
    ∃ s, Run.runFrom step new (fill 257 ++ [.resolve 0 (.error eio)]) = some s ∧
      s.asleep.length = 1 ∧ s.table.groups.keys.card < maxPending ∧ 0 < s.due := by
  obtain ⟨s, hrun, hasleep, hfree⟩ : ∃ s,
      Run.runFrom step new (fill 257 ++ [.resolve 0 (.error eio)]) = some s ∧
        s.asleep.length = 1 ∧ s.table.groups.keys.card < maxPending := by decide +kernel
  obtain ⟨p, hp⟩ := List.length_eq_one_iff.mp hasleep
  exact ⟨s, hrun, hasleep, hfree, due_of_sleeper_could_go_on _ s hrun p (by simp [hp]) (.inl hfree)⟩

end WaitingTable

end TorrentFs.Fuse
